import NetworkLibrary.Client.Connect

/-!
# The session IDs of `NetClient`

The slot is in the upper 16 bits of an ID, so that IDs of different slots differ. Those of one slot
come from `SessionIDCnt`, and differ as long as the counter does not go back between them
(`sessionID_unique`): no write of `++SessionIDCnt` may lower it (`NotLowered`). The code does not
see to that. A `Connect` that has read the counter and writes it late takes it back, and a slot that
is reused gets an ID once more (`exists_sessionID_twice`).
-/

namespace NetworkLibrary.NetClient

open Foundations Session

/-- No write of `++SessionIDCnt` lowers the counter. -/
def NotLowered (c : Client) (l : Label) : Prop :=
  ∀ k i, l = .writeCnt k i → ∀ r, c.read k = some r → c.sessionIDCnt ≤ r + 1

variable {c c' : Client} {l : Label} {n : UInt16}

theorem call_sessionIDCnt {s s' : Slot} {a : Act} {new : List Frame}
    (h : call s a = some (s', new)) (ha : a ≠ .otherSlot) : s'.sessionIDCnt = s.sessionIDCnt := by
  revert h
  fun_cases call s a <;> intro h <;> cases h <;> simp_all

/-- Only the draw changes the counter that a slot has seen. -/
theorem step_sessionIDCnt {s t : Threads Slot Frame} {i : ℕ} {a : Act}
    (h : (program .netClient).step s (i, a) = some t) (ha : a ≠ .otherSlot) :
    t.shared.sessionIDCnt = s.shared.sessionIDCnt ∨
      s.top i = some .initDraw ∧ a = .draw t.shared.sessionIDCnt := by
  obtain ⟨pre, old, new, post, -, -, hf, htop⟩ := Program.step_frames h
  cases hf with
  | call hcall => exact .inl (call_sessionIDCnt hcall ha)
  | exec he =>
    rcases exec_ids he with ⟨-, h, -⟩ | ⟨m, rfl, ha, -, ht, -⟩ | ⟨m, -, -, ht⟩
    · exact .inl h
    · rw [ht]
      exact .inr ⟨htop _ rfl, ha⟩
    · rw [ht]
      exact .inl rfl

/-- The counter is ahead of every slot, and a value that was read is ahead of the slot that it was
read for. -/
structure Ahead (c : Client) : Prop where
  sessions : ∀ k, (Session.system .netClient k).ReachableVia (Program.Steps Raises) (c.sessions k)
  cnt : ∀ k, (c.sessions k).shared.sessionIDCnt ≤ c.sessionIDCnt
  read : ∀ k r, c.read k = some r → (c.sessions k).shared.sessionIDCnt ≤ r ∧ r ≤ c.drawn
  drawn : c.sessionIDCnt ≤ c.drawn

/-- What a step does to the counter and to the values read. -/
theorem step_cnt (h : step c l = some c') :
    (c'.sessionIDCnt = c.sessionIDCnt ∧ c'.drawn = c.drawn ∧ (∀ k i, l ≠ .writeCnt k i) ∧
        ∀ k r, c'.read k = some r → c.read k = some r ∨
          r = c.sessionIDCnt ∧ c'.sessions = c.sessions) ∨
      ∃ k i r, l = .writeCnt k i ∧ c.read k = some r ∧ (c.sessions k).top i = some .initDraw ∧
        c'.sessionIDCnt = r + 1 ∧ c'.drawn = c.drawn + 1 ∧
        c'.read = Function.update c.read k none := by
  cases l with
  | connectFails =>
    obtain rfl := Option.some.inj h
    exact .inl ⟨rfl, rfl, by simp, fun _ _ hr => .inl hr⟩
  | connect k i =>
    simp only [step, Option.ite_none_right_eq_some] at h
    obtain ⟨-, h⟩ := h
    obtain ⟨c₁, hrun, rfl⟩ := Option.map_eq_some_iff.1 h
    obtain ⟨t, -, rfl⟩ := Client.run_eq hrun
    exact .inl ⟨rfl, rfl, by simp, fun _ _ hr => .inl hr⟩
  | readCnt k i =>
    simp only [step, Option.ite_none_right_eq_some] at h
    obtain ⟨-, h⟩ := h
    obtain rfl := Option.some.inj h
    refine .inl ⟨rfl, rfl, by simp, fun j r hr => ?_⟩
    change Function.update c.read k _ j = some r at hr
    rcases eq_or_ne j k with rfl | hj
    · rw [Function.update_self] at hr
      exact .inr ⟨(Option.some.inj hr).symm, rfl⟩
    · rw [Function.update_of_ne hj] at hr
      exact .inl hr
  | writeCnt k i =>
    simp only [step, Option.ite_none_right_eq_some] at h
    obtain ⟨htop, h⟩ := h
    obtain ⟨r, hr, h⟩ := Option.bind_eq_some_iff.1 h
    obtain ⟨c₁, hrun, rfl⟩ := Option.map_eq_some_iff.1 h
    obtain ⟨t, -, rfl⟩ := Client.run_eq hrun
    exact .inr ⟨k, i, r, rfl, hr, htop, rfl, rfl, rfl⟩
  | session k i a =>
    simp only [step, Option.ite_none_right_eq_some] at h
    obtain ⟨-, h⟩ := h
    obtain ⟨c₁, hrun, rfl⟩ := Option.map_eq_some_iff.1 h
    obtain ⟨t, -, rfl⟩ := Client.run_eq hrun
    exact .inl ⟨by simp, by simp, by simp, fun _ _ hr => .inl (by simpa using hr)⟩
  | ret k i =>
    simp only [step, Option.ite_none_right_eq_some] at h
    obtain ⟨-, h⟩ := h
    obtain ⟨p, -, rfl⟩ := Option.map_eq_some_iff.1 h
    exact .inl ⟨rfl, rfl, by simp, fun _ _ hr => .inl hr⟩

/-- What a step does to the counter that a slot has seen. -/
theorem step_slotCnt (h : step c l = some c') (k : UInt16) :
    (c'.sessions k).shared.sessionIDCnt = (c.sessions k).shared.sessionIDCnt ∨
      ∃ i r, l = .writeCnt k i ∧ c.read k = some r ∧
        (c'.sessions k).shared.sessionIDCnt = r + 1 := by
  rcases step_sessions h with heq | ⟨j, i, a, t, ht, heq, ha, hdraw⟩
  · exact .inl (by rw [heq])
  rw [heq]
  rcases eq_or_ne k j with rfl | hk
  · rw [Function.update_self]
    rcases step_sessionIDCnt ht ha with hcnt | ⟨htop, hn⟩
    · exact .inl hcnt
    · obtain ⟨r, rfl, hr, hn'⟩ := hdraw htop
      rw [hn] at hn'
      exact .inr ⟨i, r, rfl, hr, Act.draw.inj hn'⟩
  · rw [Function.update_of_ne hk]
    exact .inl rfl

/-- A session draws only values that are ahead of its slot. -/
theorem Ahead.sessions_step (h : Ahead c) (hst : step c l = some c') (k : UInt16) :
    (Session.system .netClient k).ReachableVia (Program.Steps Raises) (c'.sessions k) := by
  rcases step_sessions hst with heq | ⟨j, i, a, t, ht, heq, -, hdraw⟩
  · rw [heq]
    exact h.sessions k
  rw [heq]
  rcases eq_or_ne k j with rfl | hk
  · rw [Function.update_self]
    refine (h.sessions k).next (fun f hf n hfn hn => ?_) ht
    obtain ⟨r, -, hr, hn'⟩ := hdraw (hfn ▸ hf)
    obtain rfl : r + 1 = n := Act.draw.inj (hn'.symm.trans hn)
    exact Nat.lt_succ_of_le (h.read k r hr).1
  · rw [Function.update_of_ne hk]
    exact h.sessions k

theorem Ahead.step (h : Ahead c) (hok : NotLowered c l) (hst : step c l = some c') : Ahead c' := by
  have hcnt := h.cnt
  have hdrawn := h.drawn
  have hslot := step_slotCnt hst
  rcases step_cnt hst with ⟨h₁, h₂, h₃, h₄⟩ | ⟨k, i, r, rfl, hr, -, h₁, h₂, h₃⟩
  · have hkeep : ∀ k, (c'.sessions k).shared.sessionIDCnt = (c.sessions k).shared.sessionIDCnt :=
      fun k => (hslot k).resolve_right fun ⟨i, _, hl, _⟩ => h₃ k i hl
    refine ⟨h.sessions_step hst, fun k => by rw [hkeep, h₁]; exact hcnt k, fun k r hr => ?_,
      by omega⟩
    rw [hkeep, h₂]
    rcases h₄ k r hr with hr | ⟨rfl, -⟩
    · exact h.read k r hr
    · exact ⟨hcnt k, hdrawn⟩
  · have hle := hok k i rfl r hr
    have hread := h.read k r hr
    refine ⟨h.sessions_step hst, fun j => ?_, fun j r' hr' => ?_, by omega⟩
    · have := hcnt j
      rcases hslot j with hj | ⟨i', r', hl, hr', hj⟩
      · omega
      · obtain ⟨rfl, -⟩ := Label.writeCnt.inj hl
        obtain rfl := Option.some.inj (hr.symm.trans hr')
        omega
    · rw [h₃] at hr'
      rcases eq_or_ne j k with rfl | hj
      · rw [Function.update_self] at hr'
        cases hr'
      · rw [Function.update_of_ne hj] at hr'
        have := h.read j r' hr'
        rcases hslot j with hj' | ⟨i', r'', hl, -⟩
        · omega
        · exact absurd (Label.writeCnt.inj hl).1.symm hj

theorem ahead (h : (system n).ReachableVia NotLowered c) : Ahead c := by
  refine h.invariant (I := Ahead) ?_ fun c l c' ih hok hst => ih.step hok hst
  rintro _ ⟨m, rfl⟩
  exact ⟨fun k => .start ⟨m, rfl⟩, fun k => le_rfl, by simp [start], le_rfl⟩

/-- The slot can be read off the upper 16 bits. -/
theorem base_injective {j k : UInt16} (h : base j = base k) : k = j := by
  have hbase : ∀ i : UInt16, base i = i.toNat * 2 ^ 48 := fun i => Nat.shiftLeft_eq _ _
  have hmul : j.toNat * 2 ^ 48 = k.toNat * 2 ^ 48 := (hbase j).symm.trans (h.trans (hbase k))
  exact UInt16.toNat_inj.1 (Nat.eq_of_mul_eq_mul_right (Nat.two_pow_pos 48) hmul).symm

/-- **No two session generations of a client have the same ID**, and the generation whose ID a
`KillSession` or `SendPacket` has compared is the one in force, in the runs in which no write of
`++SessionIDCnt` lowers the counter, while fewer than 2^48 IDs are drawn. -/
theorem sessionID_unique (h : (system n).ReachableVia NotLowered c) (hcnt : c.drawn < 2 ^ 48) :
    (∀ (k j : UInt16) (g g' id : ℕ), (c.sessions k).shared.issued[g]? = some id →
      (c.sessions j).shared.issued[g']? = some id → k = j ∧ g = g') ∧
      ∀ k, ∀ f ∈ (c.sessions k).frames, ∀ id g, f.passed = some (id, g) →
        InForce (c.sessions k).shared id g := by
  have ha := ahead h
  have hlt : ∀ k, (c.sessions k).shared.sessionIDCnt < 2 ^ 48 := fun k =>
    ((ha.cnt k).trans ha.drawn).trans_lt hcnt
  have hdrawn := fun k => drawn_of_raises (ha.sessions k) (hlt k)
  refine ⟨fun k j g g' id hg hg' => ?_, fun k f hf id g hp => ?_⟩
  · obtain ⟨ds, hds⟩ := hdrawn k
    obtain ⟨es, hes⟩ := hdrawn j
    have hk := hds.masked (hlt k) id (List.mem_of_getElem? hg)
    rw [hes.masked (hlt j) id (List.mem_of_getElem? hg')] at hk
    obtain rfl := base_injective hk
    exact ⟨rfl, (List.getElem?_inj (List.getElem?_eq_some_iff.1 hg).1 (hds.nodup (hlt _))).1
      (hg.trans hg'.symm)⟩
  · obtain ⟨hr, hg⟩ := relies_of_passed hp
    have hc := custody (ha.sessions k)
    obtain rfl := sessionID_of_passed (ha.sessions k) f hf _ hp
    obtain ⟨ds, hds⟩ := hdrawn k
    exact hds.inForce (ha.sessions k) (hlt k) (hc.flag f hf _ hr) (hc.gen f hf g hg)

/-- A thread executes a number of statements on a session. -/
def going (k : UInt16) (i m : ℕ) : List Label := List.replicate m (.session k i .next)

/-- A `Connect` on a session, up to the read of `SessionIDCnt`. -/
def reading (k : UInt16) (i : ℕ) : List Label := [.connect k i] ++ going k i 1 ++ [.readCnt k i]

/-- The rest of this `Connect`, where `WSARecv` fails: the session is released before it returns. -/
def failing (k : UInt16) (i : ℕ) : List Label :=
  [.writeCnt k i] ++ going k i 10 ++ [.session k i .refused] ++ going k i 9 ++ [.ret k i]

/-- `NotLowered`, decided. -/
def notLowered (c : Client) : Label → Bool
  | .writeCnt k _ => (c.read k).all fun r => c.sessionIDCnt ≤ r + 1
  | _ => true

theorem notLowered_of (c : Client) (l : Label) (h : notLowered c l = true) : NotLowered c l := by
  rintro k i rfl r hr
  simpa [notLowered, hr] using h

theorem sessionID_unique_two :
    ∃ c, (system 2).ReachableVia NotLowered c ∧ (c.sessions 1).shared.issued =
        [base 1 ||| 1, base 1 ||| 2] ∧
      ∀ (k j : UInt16) (g g' id : ℕ), (c.sessions k).shared.issued[g]? = some id →
        (c.sessions j).shared.issued[g']? = some id → k = j ∧ g = g' := by
  obtain ⟨c, hc, hp⟩ := Lts.exists_reachableVia_of_run (M := system 2) notLowered_of
    ⟨1, rfl⟩ (reading 1 0 ++ failing 1 0 ++ reading 1 0 ++ failing 1 0)
    (p := fun c => decide ((c.sessions 1).shared.issued = [base 1 ||| 1, base 1 ||| 2] ∧
      c.drawn = 2)) (by decide +kernel)
  obtain ⟨hissued, hdrawn⟩ := of_decide_eq_true hp
  exact ⟨c, hc, hissued, (sessionID_unique hc (by rw [hdrawn]; decide)).1⟩

/-- **A slot may get an ID twice.** A `Connect` on slot 1 reads the counter and stalls; two others
use slot 0 one after the other; then the first one writes the counter back to 1, and the next
`Connect` on slot 0 gets the ID of the last one again. -/
theorem exists_sessionID_twice :
    ¬∀ n c, (system n).Reachable c → c.drawn < 2 ^ 48 →
      ∀ (k j : UInt16) (g g' id : ℕ), (c.sessions k).shared.issued[g]? = some id →
        (c.sessions j).shared.issued[g']? = some id → k = j ∧ g = g' := by
  intro hall
  obtain ⟨c, hc, hp⟩ := Lts.exists_reachable_of_run (M := system 2) ⟨1, rfl⟩
    (reading 1 0 ++ reading 0 0 ++ failing 0 0 ++ reading 0 0 ++ failing 0 0 ++
      [.writeCnt 1 0] ++ reading 0 0 ++ failing 0 0)
    (p := fun c => decide ((c.sessions 0).shared.issued = [1, 2, 2] ∧ c.drawn = 4))
    (by decide +kernel)
  obtain ⟨hissued, hdrawn⟩ := of_decide_eq_true hp
  have := (hall 2 c hc (by rw [hdrawn]; decide) 0 0 1 2 2 (by simp [hissued])
    (by simp [hissued])).2
  omega

end NetworkLibrary.NetClient
