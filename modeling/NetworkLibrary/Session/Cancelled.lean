import NetworkLibrary.Session.Custody

/-!
# Cancelled operations

`KillSession` stores FALSE to `SessionUseFlag` and then cancels what is outstanding; `RecvPost` and
`SendPost` post and then look at the flag. Whoever comes second sees to the cancellation: while the
flag is down and an operation is outstanding that was not cancelled, some thread is on the way to
a `CancelIoEx` (`attended`). That thread may have made its last test of the flag already
(`exists_uncancelled`).
-/

namespace NetworkLibrary.Session

open Foundations

/-- The statements of `RecvPost` and `SendPost` after the first test of `SessionUseFlag`, up to the
last one. -/
def Frame.betweenTests : Frame → Bool
  | .recvBuf _ | .recvInc _ | .wsaRecv _ | .recvRecheck _ => true
  | .postFlag _ | .wsaSend _ | .postRecheck _ => true
  | _ => false

/-- `KillSession` has stored FALSE to `SessionUseFlag`. -/
def Frame.killing : Frame → Bool
  | .killCancel _ _ => true
  | _ => false

/-- `RecvPost` or `SendPost` has found `SessionUseFlag` FALSE in its last test. -/
def Frame.cancelling : Frame → Bool
  | .recvCancel _ | .postCancel _ => true
  | _ => false

/-- The statements that lead to a `CancelIoEx` if `SessionUseFlag` is FALSE. -/
def Frame.attends : Frame → Bool
  | .recvRecheck _ | .postRecheck _ | .killCancel _ _ | .recvCancel _ | .postCancel _ => true
  | _ => false

/-- Every receive and send that is outstanding has been cancelled since it was posted. -/
def Slot.AllCancelled (s : Slot) : Prop := ∀ o ∈ s.recvs ++ s.sends, o.cancelled = true

instance (s : Slot) : Decidable s.AllCancelled :=
  inferInstanceAs (Decidable (∀ o ∈ s.recvs ++ s.sends, o.cancelled = true))

variable {host : Host} {slot : UInt16} {s s' : Slot} {f : Frame} {a : Act} {new : List Frame}
  {t : Threads Slot Frame}

/-- What leaves an operation uncancelled while `SessionUseFlag` is FALSE attends to it, or has found
it so. -/
theorem exec_attends (h : exec host s f a = some (s', new)) (huse : s'.sessionUseFlag = false) :
    s'.AllCancelled ∨ (∃ f' ∈ new, f'.attends = true) ∨
      f.attends = false ∧ s.sessionUseFlag = false ∧ (s.AllCancelled → s'.AllCancelled) := by
  revert h
  fun_cases exec host s f a <;> intro h <;> cases h <;>
    simp_all [Frame.attends, Slot.AllCancelled, Slot.cancelIoEx] <;> grind

theorem call_attends (h : call s a = some (s', new)) :
    s'.sessionUseFlag = s.sessionUseFlag ∧ (s.AllCancelled → s'.AllCancelled) := by
  revert h
  fun_cases call s a <;> intro h <;> cases h <;> simp [Slot.AllCancelled] <;>
    grind [List.mem_of_mem_eraseIdx]

/-- Some thread is on the way to a `CancelIoEx` whenever there is something to cancel. -/
def Attended (t : Threads Slot Frame) : Prop :=
  t.shared.sessionUseFlag = false → t.shared.AllCancelled ∨ ∃ f ∈ t.frames, f.attends = true

theorem attended {ok : Threads Slot Frame → ℕ × Act → Prop}
    (h : (system host slot).ReachableVia ok t) : Attended t := by
  refine h.invariant (I := Attended) ?_ ?_
  · rintro _ ⟨n, rfl⟩ -
    exact .inl (by simp [Slot.AllCancelled, start])
  · intro s l u ih _ hst huse
    obtain ⟨pre, old, new, post, hs, hu, hf, -⟩ := Program.step_frames hst
    cases hf with
    | call hcall =>
      obtain ⟨hflag, hkeep⟩ := call_attends hcall
      rcases ih (hflag ▸ huse) with hall | ⟨f, hf, ha⟩
      · exact .inl (hkeep hall)
      · refine .inr ⟨f, ?_, ha⟩
        rw [hs] at hf
        rw [hu]
        simp only [List.mem_append, List.not_mem_nil, or_false] at hf ⊢
        tauto
    | exec he =>
      rename_i f
      rcases exec_attends he huse with hall | ⟨f', hf', ha⟩ | ⟨hno, hflag, hkeep⟩
      · exact .inl hall
      · exact .inr ⟨f', by rw [hu]; simp [hf'], ha⟩
      · rcases ih hflag with hall | ⟨f', hf', ha⟩
        · exact .inl (hkeep hall)
        · -- another thread attends to it
          refine .inr ⟨f', ?_, ha⟩
          rw [hs] at hf'
          rw [hu]
          simp only [List.mem_append, List.mem_singleton] at hf' ⊢
          rcases hf' with (hf' | rfl) | hf'
          · exact .inl (.inl hf')
          · simp [hno] at ha
          · exact .inr hf'

/-- **No operation of a killed session is forgotten.** While `SessionUseFlag` is FALSE, every receive
and send that is outstanding has had a `CancelIoEx` since it was posted, unless a thread is between
the two tests of `RecvPost` or `SendPost`, or between the store of the flag or a last test that found
it FALSE and the `CancelIoEx` that follows. -/
theorem allCancelled (h : (system host slot).Reachable t)
    (huse : t.shared.sessionUseFlag = false)
    (hidle : ∀ f ∈ t.frames, f.betweenTests = false ∧ f.killing = false ∧ f.cancelling = false) :
    t.shared.AllCancelled := by
  rcases attended h huse with hall | ⟨f, hf, ha⟩
  · exact hall
  · have := hidle f hf
    cases f <;> simp_all [Frame.attends, Frame.betweenTests, Frame.killing, Frame.cancelling]

/-- A session is accepted, and killed while `RecvPost` runs, between its two tests. -/
def killBetween : List (ℕ × Act) :=
  [(0, .accept), (0, .next), (0, .draw 1)] ++ List.replicate 8 (0, .next) ++
    (1, .killSession 1) :: List.replicate 5 (1, .next) ++ [(0, .next), (0, .next), (0, .posted)]

theorem allCancelled_kill :
    ∃ t, (system .netServer 0).Reachable t ∧ t.shared.sessionUseFlag = false ∧
      t.shared.recvs ≠ [] ∧ t.shared.AllCancelled := by
  obtain ⟨t, ht, hp⟩ := Lts.exists_reachable_of_run (M := system .netServer 0) ⟨2, rfl⟩
    (killBetween ++ [(0, .next), (0, .next)])
    (p := fun t => decide (t.shared.sessionUseFlag = false ∧ t.shared.recvs ≠ [] ∧
      ∀ f ∈ t.frames, f.betweenTests = false ∧ f.killing = false ∧ f.cancelling = false))
    (by decide +kernel)
  obtain ⟨huse, hne, hidle⟩ := of_decide_eq_true hp
  exact ⟨t, ht, huse, hne, allCancelled ht huse hidle⟩

/-- **The last test of `RecvPost` comes before its `CancelIoEx`.** The session was killed between the
two tests; the receive was posted after the `CancelIoEx` of `KillSession`, the last test has found
the flag FALSE, and the thread has yet to cancel. -/
theorem exists_uncancelled :
    ¬∀ t, (system .netServer 0).Reachable t → t.shared.sessionUseFlag = false →
      (∀ f ∈ t.frames, f.betweenTests = false ∧ f.killing = false) → t.shared.AllCancelled := by
  intro hall
  obtain ⟨t, ht, hp⟩ := Lts.exists_reachable_of_run (M := system .netServer 0) ⟨2, rfl⟩
    (killBetween ++ [(0, .next)])
    (p := fun t => decide (t.shared.sessionUseFlag = false ∧
      (∀ f ∈ t.frames, f.betweenTests = false ∧ f.killing = false) ∧ ¬t.shared.AllCancelled))
    (by decide +kernel)
  obtain ⟨huse, hidle, hno⟩ := of_decide_eq_true hp
  exact hno (hall t ht huse hidle)

end NetworkLibrary.Session
