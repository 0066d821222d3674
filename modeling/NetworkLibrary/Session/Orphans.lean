import NetworkLibrary.Session.Callbacks

/-!
# Orphaned sessions

An active session whose count is 0 must be on its way to the compare-and-swap of
`DisconnectSession`: nobody else will look at it again. The decrements at the end of a completion
and of a valid `KillSession` see to that. The one in the `else` branch of `KillSession` and
`SendPacket` does not look at its result, although the reference it drops may be the last one
(`exists_orphaned`). `LastStale` is that statement in the states in which it does harm; a run
without it orphans no session, and releases every session once all its work is done
(`not_orphaned`).
-/

namespace NetworkLibrary.Session

open Foundations

/-- The session is active, but nothing is left that could bring it to `DisconnectSession`. -/
def Orphaned (t : Threads Slot Frame) : Prop :=
  t.shared.releaseFlag = false ∧ t.shared.refCnt = 0 ∧ t.Quiet ∧ t.shared.pending = 0

instance (t : Threads Slot Frame) : Decidable (Orphaned t) :=
  inferInstanceAs (Decidable (_ ∧ _ ∧ _ ∧ _))

/-- The decrement of an `else` branch drops the last reference of an active session, and no thread
stands before the compare-and-swap of `DisconnectSession`. -/
def LastStale (t : Threads Slot Frame) (f : Frame) : Prop :=
  (∃ id, f = .staleDec id) ∧ t.shared.releaseFlag = false ∧ t.shared.refCnt = 1 ∧
    ∀ c, .discCas c ∉ t.frames

/-- The runs in which no `else` branch drops the last reference. -/
def NoLastStale : Threads Slot Frame → ℕ × Act → Prop :=
  Program.Steps fun t f _ => ¬LastStale t f

variable {host : Host} {slot : UInt16} {s s' : Slot} {f : Frame} {a : Act} {new : List Frame}
  {t u : Threads Slot Frame} {pre post : List Frame}

/-- How a statement can leave the slot active with a count of 0. -/
theorem exec_zero (h : exec host s f a = some (s', new)) (hflag : s'.releaseFlag = false)
    (hcnt : s'.refCnt = 0) (_ : s.refCnt ≠ -1) :
    (∃ c, .discCas c ∈ new) ∨ 0 < tally Frame.holds new ∨
      (s.releaseFlag = false ∧ s.refCnt = 1 ∧ ∃ id, f = .staleDec id) ∨
      s.releaseFlag = false ∧ s.refCnt = 0 ∧ ∀ c, f ≠ .discCas c := by
  revert h
  fun_cases exec host s f a <;> intro h <;> cases h <;> simp_all [Frame.holds]
  all_goals omega

/-- A thread stands before the compare-and-swap of `DisconnectSession` whenever the slot is active
with a count of 0. -/
def Awaited (t : Threads Slot Frame) : Prop :=
  t.shared.releaseFlag = false → t.shared.refCnt = 0 → ∃ c, .discCas c ∈ t.frames

theorem Awaited.exec (h : Awaited t) (ht : Counted t) (hu : Counted u)
    (hs : t.frames = pre ++ [f] ++ post) (hs' : u.frames = pre ++ new ++ post)
    (he : exec host t.shared f a = some (u.shared, new)) (hok : ¬LastStale t f) : Awaited u := by
  intro hflag hcnt
  -- the frames other than the running one stay
  have hstays : ∀ c, (∀ c, f ≠ .discCas c) → .discCas c ∈ t.frames → .discCas c ∈ u.frames := by
    intro c hne hmem
    rw [hs] at hmem
    rw [hs']
    simp only [List.mem_append, List.mem_singleton] at hmem ⊢
    rcases hmem with (hmem | hmem) | hmem
    · exact .inl (.inl hmem)
    · exact absurd hmem.symm (hne c)
    · exact .inr hmem
  have hne : t.shared.refCnt ≠ -1 := by unfold Counted at ht; omega
  rcases exec_zero he hflag hcnt hne with ⟨c, hc⟩ | hpos | ⟨h₁, h₂, id, rfl⟩ | ⟨h₁, h₂, h₃⟩
  · exact ⟨c, by rw [hs']; simp [hc]⟩
  · have hle : tally Frame.holds new ≤ tally Frame.holds u.frames := by
      rw [hs', tally_append, tally_append]
      omega
    unfold Counted at hu
    omega
  · by_contra hno
    push Not at hno
    refine hok ⟨⟨id, rfl⟩, h₁, h₂, fun c hc => hno c (hstays c ?_ hc)⟩
    simp
  · obtain ⟨c, hc⟩ := h h₁ h₂
    exact ⟨c, hstays c h₃ hc⟩

theorem call_refCnt (h : call s a = some (s', new)) : s'.refCnt = s.refCnt := by
  revert h
  fun_cases call s a <;> intro h <;> cases h <;> rfl

/-- **Whoever takes the count of an active session to 0 is on the way to `DisconnectSession`**, in
the runs in which no `else` branch does it unseen. -/
theorem awaited (h : (system host slot).ReachableVia NoLastStale t) : Awaited t := by
  refine h.invariant₂ (J := Counted) refCnt_eq ?_ ?_
  · rintro _ ⟨n, rfl⟩
    intro hflag
    cases hflag
  · intro s l t hc hc' ih hok hst
    obtain ⟨pre, old, new, post, hs, ht, hf, htop⟩ := Program.step_frames hst
    cases hf with
    | call hcall =>
      intro hflag hcnt
      obtain ⟨c, hmem⟩ := ih ((call_effect hcall).1 ▸ hflag) (call_refCnt hcall ▸ hcnt)
      refine ⟨c, ?_⟩
      rw [hs] at hmem
      rw [ht]
      simp only [List.mem_append, List.not_mem_nil, or_false] at hmem ⊢
      tauto
    | exec he => exact ih.exec hc hc' hs ht he (hok _ (htop _ rfl))

/-- **No session is orphaned** in a run in which no `else` branch drops the last reference of an
active session unseen: when no call is in progress and nothing is outstanding, the slot is back on
`FreeSessionStack` and `OnClientLeave` has been called, and has returned, for every generation. -/
theorem not_orphaned (h : (system host slot).ReachableVia NoLastStale t) :
    ¬Orphaned t ∧ (t.Quiet → t.shared.pending = 0 → t.shared.releaseFlag = true ∧
      t.shared.freeCnt = 1 ∧ ∀ g < t.shared.issued.length, t.shared.phase g = some .left) := by
  have hreleased : t.Quiet → t.shared.pending = 0 → t.shared.releaseFlag = true := by
    intro hq hp
    by_contra hne
    have hcnt := refCnt_eq h
    rw [show t.frames = [] from hq, tally_nil] at hcnt
    obtain ⟨c, hmem⟩ := awaited h (by simpa using hne) (by omega)
    rw [show t.frames = [] from hq] at hmem
    cases hmem
  refine ⟨fun ⟨hflag, _, hq, hp⟩ => ?_, fun hq hp => ?_⟩
  · simp [hreleased hq hp] at hflag
  · have hflag := hreleased hq hp
    have hone := (custody h).token_eq hflag
    have hfree : t.shared.freeCnt = 1 := by
      unfold tokens Slot.stock at hone
      unfold Slot.pending at hp
      rw [show t.frames = [] from hq, tally_nil] at hone
      omega
    refine ⟨hflag, hfree, fun g hg => ?_⟩
    have hph := phased h
    rcases Nat.lt_or_ge (g + 1) t.shared.issued.length with hlt | hge
    · exact hph.past g hlt
    · exact hph.free (by omega) g (by omega)

/-- No `else` branch at all is taken. -/
def noStale (s : Threads Slot Frame) (l : ℕ × Act) : Bool :=
  match s.top l.1 with
  | some (.staleDec _) => false
  | _ => true

theorem noLastStale_of_noStale (s : Threads Slot Frame) (l : ℕ × Act) (h : noStale s l = true) :
    NoLastStale s l := by
  rintro f hf ⟨⟨id, rfl⟩, -⟩
  simp [noStale, hf] at h

theorem not_orphaned_released :
    ∃ t, (system .netServer 0).ReachableVia NoLastStale t ∧ t.shared.issued = [1] ∧ t.Quiet ∧
      ¬Orphaned t ∧ t.shared.releaseFlag = true ∧ t.shared.freeCnt = 1 ∧
        ∀ g < t.shared.issued.length, t.shared.phase g = some .left := by
  obtain ⟨t, ht, hp⟩ := Lts.exists_reachableVia_of_run (M := system .netServer 0)
    noLastStale_of_noStale ⟨2, rfl⟩
    (accepting 0 1 ++ [(1, .recvDone 0 0)] ++ List.replicate 8 (1, .next))
    (p := fun t => decide (t.shared.issued = [1] ∧ t.Quiet ∧ t.shared.pending = 0))
    (by decide +kernel)
  obtain ⟨h₁, h₂, h₃⟩ := of_decide_eq_true hp
  obtain ⟨h₄, h₅⟩ := not_orphaned ht
  exact ⟨t, ht, h₁, h₂, h₄, h₅ h₂ h₃⟩

/-- Two generations: the first is released, a `SendPacket` with its ID takes a reference of the
second, and the receive of the second completes with 0 bytes before the reference is dropped. -/
def staleSend : List (ℕ × Act) :=
  accepting 0 1 ++ [(1, .recvDone 0 0)] ++ List.replicate 8 (1, .next) ++ accepting 0 2 ++
    [(2, .sendPacket 1), (2, .next), (2, .next), (2, .next), (1, .recvDone 0 0), (1, .next),
      (2, .next)]

/-- **A `SendPacket` with a stale ID orphans the session.** -/
theorem exists_orphaned : ¬∀ t, (system .netServer 0).Reachable t → ¬Orphaned t := by
  intro hall
  obtain ⟨t, ht, hp⟩ := Lts.exists_reachable_of_run (M := system .netServer 0) ⟨3, rfl⟩ staleSend
    (p := fun t => decide (Orphaned t)) (by decide +kernel)
  exact hall t ht (of_decide_eq_true hp)

end NetworkLibrary.Session
