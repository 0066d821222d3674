import NetworkLibrary.Client.SessionID

/-!
# What `Connect` returns

`Connect` reads `session->SessionID` once more for its return value, when it has dropped its
reference. By then `ReleaseSession` may have masked the ID, and another `Connect` may have given the
slot its next one. The value is the ID that `OnConnect` was called with, or 0, in the runs in which
every `Connect` returns while its ID is in the slot, or masked to 0 (`connect_returns`, under
`KeepsID`). The masked ID of a slot other than 0 is neither (`exists_connect_returns_masked`).
-/

namespace NetworkLibrary.NetClient

open Foundations Session

variable {c c' : Client} {l : Label} {n : UInt16} {host : Host} {t : Threads Slot Frame}

/-- `ReleaseSession` has not masked the ID of the last generation. -/
def Unmasked (t : Threads Slot Frame) : Prop :=
  t.shared.freeCnt = 0 ∧ ∀ f ∈ t.frames, f.blank = false

instance (t : Threads Slot Frame) : Decidable (Unmasked t) := inferInstanceAs (Decidable (_ ∧ _))

theorem sessionID_of_unmasked {slot : UInt16} (h : (Session.system host slot).Reachable t)
    (hu : Unmasked t) : t.shared.issued.getLast? = some t.shared.sessionID := by
  have hc := custody h
  have hn := named h
  cases hflag : t.shared.releaseFlag with
  | false => exact hn.active hflag
  | true =>
    -- the token is with a frame that relies on the slot being released, and that is not blank
    have htok := hc.token_eq hflag
    have hrecvs : t.shared.recvs.length = 0 := by
      by_contra hne
      have hpend : 0 < t.shared.pending := by
        unfold Slot.pending
        omega
      simp [hc.pending hpend] at hflag
    have hpos : 0 < tally Frame.token t.frames := by
      have := hu.1
      unfold tokens Slot.stock at htok
      omega
    obtain ⟨f, hf, hpos⟩ := exists_of_tally_pos hpos
    refine hn.frame f hf ?_
    have hblank := hu.2 f hf
    have hrel := hc.flag f hf
    rw [hflag] at hrel
    cases f <;> simp_all [Frame.token, Frame.blank, Frame.named, Frame.relies]

/-! ## The calls of `Connect` -/

/-- The statements of `Connect` up to the call of `OnConnect`. -/
def beforeJoin : Frame → Bool
  | .initUse | .initDraw | .initID _ | .initQueues _ | .initInc _ | .initActive _ => true
  | .openSocket _ | .openJoin _ => true
  | _ => false

/-- `Connect` goes on from one of them to the next. -/
theorem exec_beforeJoin {s s' : Slot} {f : Frame} {a : Act} {new : List Frame}
    (h : exec host s f a = some (s', new)) (hf : beforeJoin f = true) :
    (∃ g, f = .openJoin g) ∨ ∃ f', new = [f'] ∧ beforeJoin f' = true := by
  revert h
  fun_cases exec host s f a <;> intro h <;> cases h <;> simp_all [beforeJoin]

/-- A call of `Connect` has not called `OnConnect` yet, or has called it with the ID that its
generation was issued. -/
structure Connecting (c : Client) : Prop where
  before : ∀ k i, c.connecting (k, i) = some none →
    ∃ f, (c.sessions k).calls[i]? = some [f] ∧ beforeJoin f = true
  passed : ∀ k i g id, c.connecting (k, i) = some (some (g, id)) →
    (c.sessions k).shared.issued[g]? = some id

/-- The ID that `OnConnect` is called with is the one that was issued. -/
theorem issued_of_openJoin {slot : UInt16} (h : (Session.system host slot).Reachable t) {g : ℕ}
    (hf : .openJoin g ∈ t.frames) : t.shared.issued[g]? = some t.shared.sessionID := by
  have hc := custody h
  have hlast := (named h).active (hc.flag _ hf false rfl)
  have hg := hc.gen _ hf g rfl
  rwa [List.getLast?_eq_getElem?, show t.shared.issued.length - 1 = g by omega] at hlast

/-! ## One step -/

section Run

variable {k : UInt16} {i : ℕ} {a : Act}

theorem issued_step {u : Threads Slot Frame} (ht : (program .netClient).step t (i, a) = some u)
    {g id : ℕ} (hg : t.shared.issued[g]? = some id) : u.shared.issued[g]? = some id := by
  obtain ⟨ds, hds⟩ := step_issued ht
  rw [← hds, List.getElem?_append_left (List.getElem?_eq_some_iff.1 hg).1]
  exact hg

/-- A statement of a thread on a session, and what becomes of the call of `Connect` that the thread
is executing there. -/
theorem Connecting.of_run (h : Connecting c)
    (ht : (program .netClient).step (c.sessions k) (i, a) = some t)
    (hs : c'.sessions = Function.update c.sessions k t) {p : Option (Option (ℕ × ℕ))}
    (hp : c'.connecting = Function.update c.connecting (k, i) p)
    (hbefore : p = some none → ∃ f, t.calls[i]? = some [f] ∧ beforeJoin f = true)
    (hpassed : ∀ g id, p = some (some (g, id)) → t.shared.issued[g]? = some id) :
    Connecting c' := by
  refine ⟨fun k' i' hx => ?_, fun k' i' g id hx => ?_⟩ <;> rw [hp] at hx <;> rw [hs] <;>
    by_cases heq : (k', i') = (k, i)
  · obtain ⟨rfl, rfl⟩ := Prod.mk.inj heq
    rw [Function.update_self] at hx ⊢
    exact hbefore hx
  · rw [Function.update_of_ne heq] at hx
    obtain ⟨f, hf, hb⟩ := h.before k' i' hx
    rcases eq_or_ne k' k with rfl | hk
    · rw [Function.update_self]
      exact ⟨f, (Program.step_calls_ne ht fun hi => heq (by rw [hi])).trans hf, hb⟩
    · rw [Function.update_of_ne hk]
      exact ⟨f, hf, hb⟩
  · obtain ⟨rfl, rfl⟩ := Prod.mk.inj heq
    rw [Function.update_self] at hx ⊢
    exact hpassed g id hx
  · rw [Function.update_of_ne heq] at hx
    rcases eq_or_ne k' k with rfl | hk
    · rw [Function.update_self]
      exact issued_step ht (h.passed k' i' g id hx)
    · rw [Function.update_of_ne hk]
      exact h.passed k' i' g id hx

/-- A statement that does not call `OnConnect`. -/
theorem Connecting.keep (h : Connecting c)
    (ht : (program .netClient).step (c.sessions k) (i, a) = some t)
    (hs : c'.sessions = Function.update c.sessions k t) (hp : c'.connecting = c.connecting)
    (hjoin : ∀ g, (c.sessions k).top i ≠ some (.openJoin g)) : Connecting c' := by
  refine h.of_run ht hs (hp.trans (Function.update_eq_self (k, i) _).symm) (fun hx => ?_)
    fun g id hx => issued_step ht (h.passed k i g id hx)
  obtain ⟨f, hf, hb⟩ := h.before k i hx
  obtain ⟨new, he, hcalls⟩ := Program.step_stack hf ht
  rcases exec_beforeJoin he hb with ⟨g, rfl⟩ | ⟨f', rfl, hb'⟩
  · exact absurd (by simp [Threads.top, hf]) (hjoin g)
  · exact ⟨f', hcalls, hb'⟩

theorem effect_connecting :
    (∃ g, (c.sessions k).top i = some (.openJoin g) ∧ (c.effect k i c').connecting =
        Function.update c.connecting (k, i) (some (some (g, (c.sessions k).shared.sessionID)))) ∨
      (∀ g, (c.sessions k).top i ≠ some (.openJoin g)) ∧
        (c.effect k i c').connecting = c'.connecting := by
  unfold Client.effect
  split
  · exact .inr ⟨by simp [*], rfl⟩
  · exact .inl ⟨_, ‹_›, rfl⟩
  · exact .inr ⟨‹_›, rfl⟩

end Run

theorem Connecting.step (h : Connecting c)
    (hr : ∀ k, (Session.system .netClient k).Reachable (c.sessions k))
    (hst : step c l = some c') : Connecting c' := by
  cases l with
  | connectFails =>
    obtain rfl := Option.some.inj hst
    exact ⟨h.before, h.passed⟩
  | connect k i =>
    simp only [NetClient.step, Option.ite_none_right_eq_some] at hst
    obtain ⟨⟨-, hidle, -⟩, hst⟩ := hst
    obtain ⟨c₁, hrun, rfl⟩ := Option.map_eq_some_iff.1 hst
    obtain ⟨t, ht, rfl⟩ := Client.run_eq hrun
    refine h.of_run ht rfl rfl (fun _ => ?_) (by simp)
    obtain ⟨new, hcall, hcalls⟩ := Program.step_idle hidle ht
    change Session.call _ .accept = _ at hcall
    rw [Session.call, Option.ite_none_right_eq_some] at hcall
    obtain ⟨-, rfl⟩ := Prod.mk.inj (Option.some.inj hcall.2)
    exact ⟨.initUse, hcalls, rfl⟩
  | readCnt k i =>
    simp only [NetClient.step, Option.ite_none_right_eq_some] at hst
    obtain rfl := Option.some.inj hst.2
    exact ⟨h.before, h.passed⟩
  | writeCnt k i =>
    simp only [NetClient.step, Option.ite_none_right_eq_some] at hst
    obtain ⟨htop, hst⟩ := hst
    obtain ⟨r, -, hst⟩ := Option.bind_eq_some_iff.1 hst
    obtain ⟨c₁, hrun, rfl⟩ := Option.map_eq_some_iff.1 hst
    obtain ⟨t, ht, rfl⟩ := Client.run_eq hrun
    exact h.keep ht rfl rfl (by simp [htop])
  | session k i a =>
    simp only [NetClient.step, Option.ite_none_right_eq_some] at hst
    obtain ⟨c₁, hrun, rfl⟩ := Option.map_eq_some_iff.1 hst.2
    obtain ⟨t, ht, rfl⟩ := Client.run_eq hrun
    rcases effect_connecting (c := c) (k := k) (i := i) with ⟨g, hg, hp⟩ | ⟨hjoin, hp⟩
    · refine h.of_run ht Client.effect_sessions hp (by simp) fun g' id hx => ?_
      obtain ⟨rfl, rfl⟩ := Prod.mk.inj (Option.some.inj (Option.some.inj hx))
      exact issued_step ht (issued_of_openJoin (hr k) (Threads.mem_of_top hg))
    · exact h.keep ht Client.effect_sessions hp hjoin
  | ret k i =>
    simp only [NetClient.step, Option.ite_none_right_eq_some] at hst
    obtain ⟨p, -, rfl⟩ := Option.map_eq_some_iff.1 hst.2
    have hold : ∀ x p, Function.update c.connecting (k, i) none x = some p →
        c.connecting x = some p := fun x p hx => by
      by_cases heq : x = (k, i)
      · simp [heq] at hx
      · rwa [Function.update_of_ne heq] at hx
    exact ⟨fun k' i' hx => h.before k' i' (hold _ _ hx),
      fun k' i' g id hx => h.passed k' i' g id (hold _ _ hx)⟩

theorem connecting {ok : Client → Label → Prop} (h : (system n).ReachableVia ok c) :
    Connecting c := by
  refine h.invariant₂
    (J := fun c => ∀ k, (Session.system .netClient k).Reachable (c.sessions k))
    (I := Connecting) sessions_reachable ?_ fun c l c' hr _ ih _ hst => ih.step hr hst
  rintro _ ⟨m, rfl⟩
  exact ⟨by simp [start], by simp [start]⟩

/-! ## The value returned -/

/-- Every `Connect` returns while the ID of its generation is in the slot, or the slot is slot 0 and
its ID masked. -/
def KeepsID (c : Client) (l : Label) : Prop :=
  ∀ k i, l = .ret k i → ∀ g id, c.connecting (k, i) = some (some (g, id)) →
    if Unmasked (c.sessions k) then g + 1 = (c.sessions k).shared.issued.length
    else k = 0 ∧ ∀ id ∈ (c.sessions k).shared.issued, id < 2 ^ 48

/-- Slot 0 has ID 0 when it is masked. -/
theorem sessionID_of_masked (h : (Session.system host 0).Reachable t)
    (hlt : ∀ id ∈ t.shared.issued, id < 2 ^ 48) (hu : ¬Unmasked t) : t.shared.sessionID = 0 := by
  have hb := blank h fun id hid => by
    have hmask : (base 0 ||| id) &&& 0xffff000000000000 = base 0 := id_masked (hlt id hid)
    rwa [show base 0 = 0 from rfl, Nat.zero_or] at hmask
  rw [Unmasked, not_and_or] at hu
  rcases hu with hfree | hframe
  · exact hb.free (Nat.pos_of_ne_zero hfree)
  · simp only [not_forall, Bool.not_eq_false] at hframe
    obtain ⟨f, hf, hblank⟩ := hframe
    exact hb.frame f hf hblank

/-- The values that are returned. -/
theorem step_returned (h : step c l = some c') {r : Option ℕ × ℕ} (hr : r ∈ c'.returned) :
    r ∈ c.returned ∨ r = (none, 0) ∨ ∃ k i p, l = .ret k i ∧
      (c.sessions k).calls[i]? = some [] ∧ c.connecting (k, i) = some p ∧
      r = (p.map Prod.snd, (c.sessions k).shared.sessionID) := by
  cases l with
  | connectFails =>
    obtain rfl := Option.some.inj h
    rcases List.mem_append.1 hr with hr | hr
    · exact .inl hr
    · exact .inr (.inl (List.mem_singleton.1 hr))
  | connect k i =>
    simp only [step, Option.ite_none_right_eq_some] at h
    obtain ⟨c₁, hrun, rfl⟩ := Option.map_eq_some_iff.1 h.2
    obtain ⟨t, -, rfl⟩ := Client.run_eq hrun
    exact .inl hr
  | readCnt k i =>
    simp only [step, Option.ite_none_right_eq_some] at h
    obtain rfl := Option.some.inj h.2
    exact .inl hr
  | writeCnt k i =>
    simp only [step, Option.ite_none_right_eq_some] at h
    obtain ⟨r', -, h⟩ := Option.bind_eq_some_iff.1 h.2
    obtain ⟨c₁, hrun, rfl⟩ := Option.map_eq_some_iff.1 h
    obtain ⟨t, -, rfl⟩ := Client.run_eq hrun
    exact .inl hr
  | session k i a =>
    simp only [step, Option.ite_none_right_eq_some] at h
    obtain ⟨c₁, hrun, rfl⟩ := Option.map_eq_some_iff.1 h.2
    obtain ⟨t, -, rfl⟩ := Client.run_eq hrun
    exact .inl (by simpa using hr)
  | ret k i =>
    simp only [step, Option.ite_none_right_eq_some] at h
    obtain ⟨hidle, h⟩ := h
    obtain ⟨p, hp, rfl⟩ := Option.map_eq_some_iff.1 h
    rcases List.mem_append.1 hr with hr | hr
    · exact .inl hr
    · exact .inr (.inr ⟨k, i, p, rfl, hidle, hp, List.mem_singleton.1 hr⟩)

/-- **`Connect` returns 0 if it has not called `OnConnect`, and otherwise 0 or the ID that it has
passed to it**, in the runs in which it returns while its ID is in the slot, or masked to 0. -/
theorem connect_returns (h : (system n).ReachableVia KeepsID c) :
    ∀ r ∈ c.returned, (r.1 = none → r.2 = 0) ∧ ∀ id, r.1 = some id → r.2 = 0 ∨ r.2 = id := by
  refine h.invariant₂
    (J := fun c => (∀ k, (Session.system .netClient k).Reachable (c.sessions k)) ∧ Connecting c)
    (I := fun c => ∀ r ∈ c.returned,
      (r.1 = none → r.2 = 0) ∧ ∀ id, r.1 = some id → r.2 = 0 ∨ r.2 = id)
    (fun h => ⟨sessions_reachable h, connecting h⟩) ?_ ?_
  · rintro _ ⟨m, rfl⟩
    simp [start]
  · rintro c l c' ⟨hreach, hc⟩ - ih hok hst r hr
    rcases step_returned hst hr with hr | rfl | ⟨k, i, p, rfl, hidle, hp, rfl⟩
    · exact ih r hr
    · exact ⟨fun _ => rfl, fun id hid => by cases hid⟩
    · rcases p with _ | ⟨g, id⟩
      · obtain ⟨f, hf, -⟩ := hc.before k i hp
        rw [hf] at hidle
        cases hidle
      · refine ⟨fun hnone => (by cases hnone), fun id' hid => ?_⟩
        obtain rfl := Option.some.inj hid
        have hkeeps := hok k i rfl g id hp
        have hissued := hc.passed k i g id hp
        split_ifs at hkeeps with hu
        · have hlast := sessionID_of_unmasked (hreach k) hu
          rw [List.getLast?_eq_getElem?, ← hkeeps, Nat.add_sub_cancel, hissued] at hlast
          exact .inr (Option.some.inj hlast).symm
        · obtain ⟨rfl, hlt⟩ := hkeeps
          exact .inl (sessionID_of_masked (hreach 0) hlt hu)

/-- `KeepsID`, decided. -/
def keepsID (c : Client) : Label → Bool
  | .ret k i =>
    match c.connecting (k, i) with
    | some (some (g, _)) =>
      if Unmasked (c.sessions k) then g + 1 = (c.sessions k).shared.issued.length
      else k = 0 ∧ ∀ id ∈ (c.sessions k).shared.issued, id < 2 ^ 48
    | _ => true
  | _ => true

theorem keepsID_of (c : Client) (l : Label) (h : keepsID c l = true) : KeepsID c l := by
  rintro k i rfl g id hp
  simp only [keepsID, hp, Bool.ite_eq_true_distrib, decide_eq_true_eq] at h
  exact h

/-- `WSARecv` fails at once for a session of slot 0, which is released before `Connect` returns, and
is accepted for one of slot 1. -/
theorem connect_returns_two :
    ∃ c, (system 2).ReachableVia KeepsID c ∧
      c.returned = [(some (base 1 ||| 1), base 1 ||| 1), (none, 0), (some 2, 0)] ∧
      ∀ r ∈ c.returned, (r.1 = none → r.2 = 0) ∧ ∀ id, r.1 = some id → r.2 = 0 ∨ r.2 = id := by
  obtain ⟨c, hc, hp⟩ := Lts.exists_reachableVia_of_run (M := system 2) keepsID_of ⟨1, rfl⟩
    (reading 1 0 ++ [.writeCnt 1 0] ++ going 1 0 10 ++ [.session 1 0 .posted] ++ going 1 0 2 ++
      [.ret 1 0, .connectFails] ++ reading 0 0 ++ failing 0 0)
    (p := fun c => decide
      (c.returned = [(some (base 1 ||| 1), base 1 ||| 1), (none, 0), (some 2, 0)]))
    (by decide +kernel)
  exact ⟨c, hc, of_decide_eq_true hp, connect_returns hc⟩

/-- **`Connect` may return a number that is no session ID.** `WSARecv` fails at once for the session
of slot 1, so that `Connect` drops the last reference and releases it. -/
theorem exists_connect_returns_masked :
    ¬∀ n c, (system n).Reachable c →
      ∀ r ∈ c.returned, (r.1 = none → r.2 = 0) ∧ ∀ id, r.1 = some id → r.2 = 0 ∨ r.2 = id := by
  intro hall
  obtain ⟨c, hc, hp⟩ := Lts.exists_reachable_of_run (M := system 2) ⟨1, rfl⟩
    (reading 1 0 ++ failing 1 0)
    (p := fun c => decide (c.returned = [(some 0x1000000000001, 0x1000000000000)]))
    (by decide +kernel)
  have hret : c.returned = [(some 0x1000000000001, 0x1000000000000)] := of_decide_eq_true hp
  have := (hall 2 c hc (some 0x1000000000001, 0x1000000000000) (by simp [hret])).2 _ rfl
  omega

end NetworkLibrary.NetClient
