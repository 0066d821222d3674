import NetworkLibrary.Server.Stop

/-!
# What `Stop` has waited for

A count of 0 in the wait loop means that every session is on `FreeSessionStack`, and so that every
generation so far has been left (`emptied`). This lasts until `Stop` returns if the accept thread
takes no session off the stack any more (`NoneAfter`, `onClientLeave_of_returned`). But the listen
socket is still open then, and the accept thread looks at `Shutdown` before `accept` and not after
it: a connection that arrives in between gets a session which `Stop` neither kills nor waits for
(`exists_returned_without_leave`).
-/

namespace NetworkLibrary.NetServer

open Foundations Session

/-- `Stop` has left the wait loop, and not by its timeout. -/
def Server.counted (s : Server) : Bool := s.stopping.waited && !s.timedOut

/-- Once the wait loop has read a count of 0, `GetFreeSession` finds no session. -/
def NoneAfter (s : Server) (l : Label) : Prop :=
  s.counted = true → (∃ ok, l = .acceptThread ok) → s.accepting = .lowerSize → s.size ≤ 0

/-- One for a `Pop` that has lowered `Size` and not yet taken a session off. -/
def Accepting.lowered : Accepting → ℕ
  | .pop | .undoSize => 1
  | _ => 0

variable {total threads : UInt16} {s s' : Server} {l : Label}

theorem Server.run_eq {k : UInt16} {l : ℕ × Act} (h : s.run k l = some s') :
    s.sessions.run k l = some s'.sessions ∧ s' = { s with sessions := s'.sessions } := by
  obtain ⟨arr, ha, rfl⟩ := Option.map_eq_some_iff.1 h
  exact ⟨ha, rfl⟩

/-! ## One step -/

/-- What a step does to the sessions, to the stack, and to what `Size` is made of. -/
inductive Moved (l : Label) (s s' : Server) : Prop
  /-- A statement on a session. -/
  | session (k : UInt16) (i : ℕ) (a : Act) :
      s.sessions.run k (i, a) = some s'.sessions → a ≠ .accept →
      (s'.freeSessionStack =
        if s.sessions.pushing k i then k :: s.freeSessionStack else s.freeSessionStack) →
      (s'.raising = if s.sessions.pushing k i then i :: s.raising else s.raising) →
      s'.size = s.size → s'.accepting = s.accepting → Moved l s s'
  /-- `Pop` takes a session off. -/
  | pop (k : UInt16) :
      s.accepting = .pop → s.freeSessionStack = k :: s'.freeSessionStack →
      (s.sessions k).calls[0]? = some [] → s.sessions.run k (0, .accept) = some s'.sessions →
      s'.raising = s.raising → s'.size = s.size → s'.accepting = .session k → Moved l s s'
  /-- `Pop` lowers `Size`. -/
  | lowerSize :
      s.accepting = .lowerSize → (∃ ok, l = .acceptThread ok) → s'.sessions = s.sessions →
      s'.freeSessionStack = s.freeSessionStack → s'.raising = s.raising → s'.size = s.size - 1 →
      (s'.accepting = if s.size ≤ 0 then .undoSize else .pop) → Moved l s s'
  /-- `Pop` raises `Size` again. -/
  | undoSize :
      s.accepting = .undoSize → s'.sessions = s.sessions →
      s'.freeSessionStack = s.freeSessionStack → s'.raising = s.raising → s'.size = s.size + 1 →
      s'.accepting = .test → Moved l s s'
  /-- `Push` raises `Size`. -/
  | raiseSize :
      s'.sessions = s.sessions → s'.freeSessionStack = s.freeSessionStack →
      s.raising.length = s'.raising.length + 1 → s'.size = s.size + 1 →
      s'.accepting = s.accepting → Moved l s s'
  /-- Any other statement. -/
  | other :
      s'.sessions = s.sessions → s'.freeSessionStack = s.freeSessionStack →
      s'.raising = s.raising → s'.size = s.size →
      (s'.accepting = s.accepting ∨ s.accepting.lowered = 0 ∧ s'.accepting.lowered = 0) → Moved l s s'

theorem acceptThread_moved {ok : Bool} (h : s.acceptThread ok = some s') :
    Moved (.acceptThread ok) s s' ∧ s'.stopping = s.stopping ∧ s'.timedOut = s.timedOut := by
  unfold Server.acceptThread at h
  split at h
  case h_1 hacc | h_2 hacc | h_3 hacc | h_4 hacc =>
    obtain rfl := Option.some.inj h
    refine ⟨.other rfl rfl rfl rfl (.inr ⟨by rw [hacc]; rfl, ?_⟩), rfl, rfl⟩
    dsimp only
    split <;> rfl
  case h_5 hacc =>
    obtain rfl := Option.some.inj h
    exact ⟨.lowerSize hacc ⟨ok, rfl⟩ rfl rfl rfl rfl rfl, rfl, rfl⟩
  case h_6 hacc =>
    obtain rfl := Option.some.inj h
    exact ⟨.undoSize hacc rfl rfl rfl rfl rfl, rfl, rfl⟩
  case h_7 hacc =>
    split at h
    case h_1 k stack hstack =>
      rw [Option.ite_none_right_eq_some] at h
      obtain ⟨hidle, h⟩ := h
      obtain ⟨s₁, hrun, rfl⟩ := Option.map_eq_some_iff.1 h
      obtain ⟨hrun, hs⟩ := Server.run_eq hrun
      rw [hs]
      exact ⟨.pop k hacc hstack hidle hrun rfl rfl rfl, rfl, rfl⟩
    case h_2 => cases h
  case h_8 k hacc =>
    rw [Option.ite_none_right_eq_some] at h
    obtain ⟨-, h⟩ := h
    obtain rfl := Option.some.inj h
    exact ⟨.other rfl rfl rfl rfl (.inr ⟨by rw [hacc]; rfl, rfl⟩), rfl, rfl⟩
  case h_9 => cases h

/-- The wait loop is left when the count is 0, or by its timeout. -/
theorem stop_moved (h : s.stop total threads = some s') :
    Moved .stop s s' ∧ s'.timedOut = s.timedOut ∧ s'.accepting = s.accepting ∧
      (s'.stopping.waited = true → s.stopping.waited = true ∨
        s.getConnectedSessionCnt total = 0 ∧ s'.sessions = s.sessions) := by
  unfold Server.stop at h
  split at h
  case h_1 =>
    obtain rfl := Option.some.inj h
    exact ⟨.other rfl rfl rfl rfl (.inl rfl), rfl, rfl, fun hw => by cases hw⟩
  case h_2 i hstop =>
    split at h
    · obtain rfl := Option.some.inj h
      refine ⟨.other rfl rfl rfl rfl (.inl rfl), rfl, rfl, fun hw => ?_⟩
      dsimp only at hw
      split at hw <;> cases hw
    · obtain rfl := Option.some.inj h
      exact ⟨.other rfl rfl rfl rfl (.inl rfl), rfl, rfl, fun hw => by cases hw⟩
  case h_3 i hstop =>
    rw [Option.ite_none_right_eq_some] at h
    obtain ⟨hidle, h⟩ := h
    obtain ⟨s₁, hrun, rfl⟩ := Option.map_eq_some_iff.1 h
    obtain ⟨hrun, hs⟩ := Server.run_eq hrun
    have hpush : s.sessions.pushing (UInt16.ofNat ((s.sessions i).shared.sessionID >>> 48)) 1 =
        false := by
      simp [SessionArr.pushing, Threads.top, hidle]
    rw [hs]
    refine ⟨.session _ 1 _ hrun (by simp) ?_ ?_ rfl rfl, rfl, rfl, fun hw => by cases hw⟩ <;>
      simp [hpush]
  case h_4 =>
    rw [Option.ite_none_right_eq_some] at h
    obtain ⟨-, h⟩ := h
    obtain rfl := Option.some.inj h
    exact ⟨.other rfl rfl rfl rfl (.inl rfl), rfl, rfl, fun hw => by cases hw⟩
  case h_5 =>
    obtain rfl := Option.some.inj h
    refine ⟨.other rfl rfl rfl rfl (.inl rfl), rfl, rfl, fun hw => ?_⟩
    dsimp only at hw
    split at hw
    · exact .inr ⟨‹_›, rfl⟩
    · cases hw
  case h_6 hstop | h_8 hstop =>
    obtain rfl := Option.some.inj h
    exact ⟨.other rfl rfl rfl rfl (.inl rfl), rfl, rfl, fun _ => .inl (by rw [hstop]; rfl)⟩
  case h_7 hstop | h_9 hstop =>
    rw [Option.ite_none_right_eq_some] at h
    obtain ⟨-, h⟩ := h
    obtain rfl := Option.some.inj h
    exact ⟨.other rfl rfl rfl rfl (.inl rfl), rfl, rfl, fun _ => .inl (by rw [hstop]; rfl)⟩
  case h_10 => cases h

/-- **What a step does.** -/
theorem step_moved (h : s.step total threads l = some s') :
    Moved l s s' ∧ (s'.counted = true → s.counted = true ∨
      s.getConnectedSessionCnt total = 0 ∧ s'.sessions = s.sessions ∧
        s'.accepting = s.accepting) := by
  cases l with
  | acceptThread ok =>
    obtain ⟨hm, hstop, htime⟩ := acceptThread_moved h
    refine ⟨hm, fun hc => .inl ?_⟩
    rwa [Server.counted, hstop, htime] at hc
  | stop =>
    obtain ⟨hm, htime, hacc, hw⟩ := stop_moved h
    refine ⟨hm, fun hc => ?_⟩
    rw [Server.counted, Bool.and_eq_true, htime] at hc
    rcases hw hc.1 with hw | ⟨hcnt, hs⟩
    · exact .inl (by rw [Server.counted, hw, hc.2]; rfl)
    · exact .inr ⟨hcnt, hs, hacc⟩
  | timeout =>
    simp only [Server.step, Option.ite_none_right_eq_some] at h
    obtain rfl := Option.some.inj h.2
    exact ⟨.other rfl rfl rfl rfl (.inl rfl), fun hc => by simp [Server.counted] at hc⟩
  | session k i a =>
    simp only [Server.step, Option.ite_none_right_eq_some] at h
    obtain ⟨hallowed, h⟩ := h
    obtain ⟨s₁, hrun, rfl⟩ := Option.map_eq_some_iff.1 h
    obtain ⟨hrun, hs⟩ := Server.run_eq hrun
    rw [hs]
    refine ⟨.session k i a hrun ?_ rfl rfl rfl rfl, .inl⟩
    rintro rfl
    simp [Server.allowed] at hallowed
  | raiseSize i =>
    simp only [Server.step, Option.ite_none_right_eq_some] at h
    obtain ⟨hi, h⟩ := h
    obtain rfl := Option.some.inj h
    exact ⟨.raiseSize rfl rfl (List.length_erase_add_one hi).symm rfl rfl, .inl⟩
  | exit i =>
    simp only [Server.step, Option.ite_none_right_eq_some] at h
    obtain rfl := Option.some.inj h.2
    exact ⟨.other rfl rfl rfl rfl (.inl rfl), .inl⟩

/-! ## `Size` -/

/-- What `FreeSessionStack` and its `Size` say about the sessions. -/
structure Sized (total : UInt16) (s : Server) : Prop where
  reachable : ∀ k, (Session.system .netClient k).Reachable (s.sessions k)
  stacked : s.sessions.Stacked total s.freeSessionStack
  size : s.size + s.raising.length + s.accepting.lowered = s.freeSessionStack.length
  nonneg : 0 ≤ s.size ∨ s.size = -1 ∧ s.accepting = .undoSize

theorem Sized.step (h : Sized total s) (hst : s.step total threads l = some s') :
    Sized total s' := by
  have hsize := h.size
  have hnonneg := h.nonneg
  cases (step_moved hst).1 with
  | session k i a hrun ha hstack hraising hsz hacc =>
    refine ⟨SessionArr.run_reachable hrun h.reachable, ?_, ?_, by rw [hsz, hacc]; exact hnonneg⟩
    · rw [hstack]
      exact h.stacked.run hrun ha
    · rw [hsz, hacc, hstack, hraising]
      split
      · simp only [List.length_cons]
        omega
      · exact hsize
  | pop k hpop hstack hidle hrun hraising hsz hacc =>
    refine ⟨SessionArr.run_reachable hrun h.reachable, ?_, ?_, ?_⟩
    · exact (hstack ▸ h.stacked).pop hrun hidle
    · rw [hstack, hpop] at hsize
      rw [hsz, hacc, hraising]
      simp only [Accepting.lowered, List.length_cons] at hsize ⊢
      omega
    · simp only [hpop, reduceCtorEq, and_false, or_false] at hnonneg
      exact .inl (hsz ▸ hnonneg)
  | lowerSize hlower _ hs hstack hraising hsz hacc =>
    simp only [hlower, reduceCtorEq, and_false, or_false] at hnonneg
    rw [hlower] at hsize
    simp only [Accepting.lowered] at hsize
    refine ⟨hs ▸ h.reachable, by rw [hs, hstack]; exact h.stacked, ?_, ?_⟩
    · rw [hsz, hacc, hraising, hstack]
      split <;> simp only [Accepting.lowered] <;> omega
    · rw [hsz, hacc]
      split
      · exact .inr ⟨by omega, rfl⟩
      · exact .inl (by omega)
  | undoSize hundo hs hstack hraising hsz hacc =>
    rw [hundo] at hsize
    simp only [Accepting.lowered] at hsize
    refine ⟨hs ▸ h.reachable, by rw [hs, hstack]; exact h.stacked, ?_, .inl (by omega)⟩
    rw [hsz, hacc, hraising, hstack]
    simp only [Accepting.lowered]
    omega
  | raiseSize hs hstack hraising hsz hacc =>
    refine ⟨hs ▸ h.reachable, by rw [hs, hstack]; exact h.stacked, ?_, .inl (by omega)⟩
    rw [hsz, hacc, hstack]
    omega
  | other hs hstack hraising hsz hacc =>
    refine ⟨hs ▸ h.reachable, by rw [hs, hstack]; exact h.stacked, ?_, ?_⟩
    · rw [hsz, hraising, hstack]
      rcases hacc with hacc | ⟨h₀, h₀'⟩
      · rwa [hacc]
      · rwa [h₀', ← h₀]
    · rw [hsz]
      rcases hacc with hacc | ⟨h₀, -⟩
      · rwa [hacc]
      · refine .inl (hnonneg.resolve_right fun ⟨_, hundo⟩ => ?_)
        rw [hundo] at h₀
        cases h₀

theorem sized {ok : Server → Label → Prop} (h : (system total threads).ReachableVia ok s) :
    Sized total s := by
  refine h.invariant (I := Sized total) ?_ fun s l s' ih _ hst => ih.step hst
  rintro _ ⟨m, rfl⟩
  refine ⟨fun k => .start ⟨m, rfl⟩, SessionArr.stacked_start m, ?_, .inl ?_⟩
  · simp [start, SessionArr.length_free, Accepting.lowered]
  · simp [start]

/-- When the count is 0, every session is on the stack, and no `Pop` is on its way to take one. -/
theorem Sized.full (h : Sized total s) (hcnt : s.getConnectedSessionCnt total = 0) :
    (∀ k, 0 < (s.sessions k).shared.freeCnt) ∧ s.accepting ≠ .pop := by
  have hsize := h.size
  have hlen := h.stacked.length_le h.reachable
  have hlt := total.toNat_lt
  have hsz : s.size = total.toNat := by
    have hnonneg := h.nonneg
    have heq : BitVec.ofNat 32 total.toNat = BitVec.ofInt 32 s.size := by
      simpa using BitVec.sub_eq_iff_eq_add.1 hcnt
    have hint := congrArg BitVec.toInt heq
    rw [BitVec.toInt_ofInt, BitVec.toInt_ofNat', Int.bmod_eq_of_le (by omega) (by omega),
      Int.bmod_eq_of_le (by omega) (by omega)] at hint
    exact hint.symm
  refine ⟨h.stacked.full h.reachable (by omega), fun hpop => ?_⟩
  rw [hpop] at hsize
  simp only [Accepting.lowered] at hsize
  omega

/-! ## After the wait loop -/

/-- Every session is on the stack, and stays there. -/
def Emptied (s : Server) : Prop :=
  s.counted = true → (∀ k, 0 < (s.sessions k).shared.freeCnt) ∧ s.accepting ≠ .pop

theorem Emptied.step (h : Emptied s) (hz : Sized total s) (hok : NoneAfter s l)
    (hst : s.step total threads l = some s') : Emptied s' := by
  intro hc
  obtain ⟨hm, hw⟩ := step_moved hst
  rcases hw hc with hc₀ | ⟨hcnt, hs, hacc⟩
  · obtain ⟨hfree, hpop⟩ := h hc₀
    cases hm with
    | session k i a hrun ha _ _ _ hacc =>
      refine ⟨fun j => ?_, hacc ▸ hpop⟩
      have hj := hfree j
      obtain ⟨t, -, heq⟩ := SessionArr.run_eq hrun
      rcases eq_or_ne j k with rfl | hne
      · rcases SessionArr.run_freeCnt hrun with ⟨-, ha', -⟩ | ⟨-, hcnt⟩
        · exact absurd ha' ha
        · omega
      · rwa [heq, Function.update_of_ne hne]
    | pop k hpop' => exact absurd hpop' hpop
    | lowerSize hlower hl hs _ _ _ hacc =>
      refine ⟨hs ▸ hfree, ?_⟩
      rw [hacc, if_pos (hok hc₀ hl hlower)]
      simp
    | undoSize _ hs _ _ _ hacc => exact ⟨hs ▸ hfree, by simp [hacc]⟩
    | raiseSize hs _ _ _ hacc => exact ⟨hs ▸ hfree, hacc ▸ hpop⟩
    | other hs _ _ _ hacc =>
      refine ⟨hs ▸ hfree, ?_⟩
      rcases hacc with hacc | ⟨-, h₀⟩
      · exact hacc ▸ hpop
      · intro hpop'
        rw [hpop'] at h₀
        cases h₀
  · rw [hs, hacc]
    exact hz.full hcnt

theorem emptied (h : (system total threads).ReachableVia NoneAfter s) : Emptied s := by
  refine h.invariant₂ (J := Sized total) sized ?_ fun s l s' hz _ ih hok hst => ih.step hz hok hst
  rintro _ ⟨m, rfl⟩ hc
  cases hc

/-- A session on the stack has left all its generations. -/
theorem onClientLeave_of_free {slot : UInt16} {t : Threads Slot Frame}
    (h : (Session.system .netClient slot).Reachable t) (hfree : 0 < t.shared.freeCnt) {g : ℕ}
    (hg : t.shared.events g ≠ []) : .onClientLeave ∈ t.shared.events g := by
  have hph := phased h
  have hleft : t.shared.phase g = some .left := by
    rcases Nat.lt_trichotomy (g + 1) t.shared.issued.length with hlt | heq | hgt
    · exact hph.past g hlt
    · exact hph.free hfree g heq
    · refine absurd ?_ hg
      simp only [Slot.events, List.map_eq_nil_iff, List.filter_eq_nil_iff, decide_eq_true_eq]
      intro c hc
      have := hph.lt c hc
      omega
  obtain ⟨n, hn⟩ := Phase.exists_events hleft
  rw [hn]
  simp [Phase.events]

/-- **When `Stop` returns, `OnClientLeave` has been called for every session that `OnClientJoin` was
called for**, in the runs in which its wait loop has read a count of 0 and the accept thread takes
no session off `FreeSessionStack` after that. -/
theorem onClientLeave_of_returned (h : (system total threads).ReachableVia NoneAfter s)
    (hret : s.stopping = .returned) (htime : s.timedOut = false) (k : UInt16) (g : ℕ)
    (hjoin : .onClientJoin ∈ (s.sessions k).shared.events g) :
    .onClientLeave ∈ (s.sessions k).shared.events g := by
  have hfree := (emptied h (by rw [Server.counted, hret, htime]; rfl)).1 k
  exact onClientLeave_of_free ((sized h).reachable k) hfree (List.ne_nil_of_mem hjoin)

/-- A thread executes a number of statements on a session. -/
def going (k : UInt16) (i m : ℕ) : List Label := List.replicate m (.session k i .next)

/-- The accept thread on a session it has taken off the stack, for which `WSARecv` is accepted. -/
def joining (k : UInt16) (n : ℕ) : List Label :=
  going k 0 1 ++ [.session k 0 (.draw n)] ++ going k 0 10 ++ [.session k 0 .posted] ++
    going k 0 2 ++ [.acceptThread true]

/-- The rest of a run of `Stop` with one worker, from the wait loop on. -/
def ending : List Label :=
  [.stop, .stop, .acceptThread true, .acceptThread true, .stop, .stop, .exit 2, .stop]

/-- `NoneAfter`, decided. -/
def noneAfter (s : Server) : Label → Bool
  | .acceptThread _ => s.counted && s.accepting = .lowerSize → s.size ≤ 0
  | _ => true

theorem noneAfter_of (s : Server) (l : Label) (h : noneAfter s l = true) : NoneAfter s l := by
  rintro hc ⟨ok, rfl⟩ hlower
  simpa [noneAfter, hc, hlower] using h

/-- A session is accepted, and killed by the sweep of `Stop`; its receive is cancelled. -/
theorem onClientLeave_of_returned_one :
    ∃ s, (system 1 1).ReachableVia NoneAfter s ∧ s.stopping = .returned ∧
      .onClientJoin ∈ (s.sessions 0).shared.events 0 ∧
      .onClientLeave ∈ (s.sessions 0).shared.events 0 := by
  obtain ⟨s, hs, hp⟩ := Lts.exists_reachableVia_of_run (M := system 1 1) noneAfter_of ⟨3, rfl⟩
    (List.replicate 5 (.acceptThread true) ++ joining 0 1 ++ [.acceptThread true] ++
      List.replicate 3 .stop ++ going 0 1 6 ++ [.session 0 2 (.recvDone 0 0)] ++
      going 0 2 8 ++ [.raiseSize 2, .stop, .stop] ++ ending)
    (p := fun s => decide (s.stopping = .returned ∧ s.timedOut = false ∧
      .onClientJoin ∈ (s.sessions 0).shared.events 0)) (by decide +kernel)
  obtain ⟨hret, htime, hjoin⟩ := of_decide_eq_true hp
  exact ⟨s, hs, hret, hjoin, onClientLeave_of_returned hs hret htime 0 0 hjoin⟩

/-- **`Stop` may return without `OnClientLeave`.** The accept thread has tested `Shutdown` before
`Stop` raises it. The wait loop finds no connected session; then a connection arrives, `accept`
returns it, and its session joins. -/
theorem exists_returned_without_leave :
    ¬∀ total threads s, (system total threads).Reachable s → s.stopping = .returned →
      s.timedOut = false → ∀ k g, .onClientJoin ∈ (s.sessions k).shared.events g →
        .onClientLeave ∈ (s.sessions k).shared.events g := by
  intro hall
  obtain ⟨s, hs, hp⟩ := Lts.exists_reachable_of_run (M := system 1 1) ⟨3, rfl⟩
    ([.acceptThread true] ++ List.replicate 4 .stop ++ List.replicate 4 (.acceptThread true) ++
      joining 0 1 ++ [.stop, .acceptThread true, .stop, .stop, .exit 2, .stop])
    (p := fun s => decide (s.stopping = .returned ∧ s.timedOut = false ∧
      (s.sessions 0).shared.events 0 = [.onClientJoin, .onClientJoinReturn])) (by decide +kernel)
  obtain ⟨hret, htime, hev⟩ := of_decide_eq_true hp
  have := hall 1 1 s hs hret htime 0 0 (by simp [hev])
  simp [hev] at this

end NetworkLibrary.NetServer
