import NetworkLibrary.Queue.LockFreeQueue
import Mathlib.Data.List.Count
import Mathlib.Tactic.Linarith

/-!
# The accounts of `LockFreeQueue`

What holds in every run, whatever becomes of the chain: the values that were linked and not yet
dequeued are counted by `Size` and the running calls (`size_eq`), and every value of a call of
`Enqueue` is linked once, every value dequeued returned once (`called_count`, `dequeued_count`).
-/

namespace NetworkLibrary.LockFreeQueue

open Foundations

variable {T : Type*}

/-- A linked value that `Size` does not count yet. -/
def Frame.unsized : Frame T → ℕ
  | .casTail _ _ | .incSize => 1
  | _ => 0

/-- A `Dequeue` that `Size` has let into the loop. -/
def Frame.loops : Frame T → ℕ
  | .tagNext | .readHead _ | .readCurTail _ _ | .readHeadNext _ _ _ | .testHead _ _ _ => 1
  | .moveTail _ _ | .readData _ _ | .casHead _ _ _ => 1
  | _ => 0

/-- A `Dequeue` that has yet to take back its subtraction. -/
def Frame.undoes : Frame T → ℕ
  | .undoSize => 1
  | _ => 0

/-- The value of an `Enqueue` that has not linked its node. -/
def Frame.brings : Frame T → Option T
  | .allocNode v | .setData v _ | .setNext v _ | .incNew v _ | .tagNew v _ | .readTail v _ => some v
  | .incOld v _ _ | .readTailAgain v _ _ | .readNext v _ _ _ | .testTail v _ _ _ => some v
  | .casNext v _ _ | .help v _ _ _ => some v
  | _ => none

/-- The value that a successful `Dequeue` is about to return. -/
def Frame.returns : Frame T → Option T
  | .ret v => some v
  | _ => none

variable {q q' : Queue T} {f : Frame T} {a : Act T} {new : List (Frame T)}

/-- A statement that dereferences `nullptr` changes no account. -/
theorem exec_cases (h : exec q f a = some (q', new)) :
    stmt q f a = some (q', new) ∨ q' = { q with fault := true } ∧ new = [f] := by
  rw [exec] at h
  split at h
  · cases h
    exact .inr ⟨rfl, rfl⟩
  · exact .inl h

/-! ## Size -/

theorem exec_size (h : exec q f a = some (q', new)) :
    (q'.linked.length - q'.dequeued.length - q'.size : ℤ) +
          (f.unsized + f.loops + f.undoes : ℕ) =
        q.linked.length - q.dequeued.length - q.size +
          tally (fun f => f.unsized + f.loops + f.undoes) new ∧
      (0 ≤ q'.size + tally Frame.undoes new ∨
        q.size + f.undoes ≤ q'.size + tally Frame.undoes new) := by
  rcases exec_cases h with h | ⟨rfl, rfl⟩
  · revert h
    fun_cases stmt q f a <;> intro h <;> cases h
    all_goals simp only [tally_cons, tally_nil]
    all_goals simp [Frame.unsized, Frame.loops, Frame.undoes]
    all_goals omega
  · simp

theorem call_accounts (h : call q a = some (q', new)) :
    q'.linked = q.linked ∧ q'.dequeued = q.dequeued ∧ q'.returned = q.returned ∧
      q'.size = q.size ∧ q'.tagCnt = q.tagCnt ∧ q'.head = q.head := by
  revert h
  fun_cases call q a <;> intro h <;> cases h <;> simp

theorem call_frames (h : call q a = some (q', new)) :
    new = [.decSize] ∧ q'.called = q.called ∨
      ∃ v, new = [.allocNode v] ∧ q'.called = q.called ++ [v] := by
  revert h
  fun_cases call q a <;> intro h <;> cases h <;> simp

variable {ok : Threads (Queue T) (Frame T) → ℕ × Act T → Prop}
  {t u : Threads (Queue T) (Frame T)}

/-- The linked values that were not dequeued are counted by `Size`, by the `Enqueue`s that have
yet to raise it, and by the `Dequeue`s that have lowered it. -/
theorem size_eq [Inhabited T] (h : (system T).ReachableVia ok t) :
    (t.shared.linked.length - t.shared.dequeued.length - t.shared.size : ℤ) =
      (tally Frame.unsized t.frames + tally Frame.loops t.frames +
        tally Frame.undoes t.frames : ℕ) := by
  have := Program.conserved (P := program)
    (fun q => q.linked.length - q.dequeued.length - q.size)
    (fun f => f.unsized + f.loops + f.undoes) (fun q a old q' new hf => by
      cases hf with
      | call hc =>
        obtain ⟨h₁, h₂, -, h₄, -⟩ := call_accounts hc
        rcases call_frames hc with ⟨rfl, -⟩ | ⟨v, rfl, -⟩ <;>
          simp [h₁, h₂, h₄, Frame.unsized, Frame.loops, Frame.undoes]
      | exec he => simpa using (exec_size he).1) h
  simpa [initQueue, tally_add] using this

/-- `Size` is negative only while a `Dequeue` has yet to take back its subtraction. -/
theorem size_nonneg [Inhabited T] (h : (system T).ReachableVia ok t) :
    0 ≤ t.shared.size + tally Frame.undoes t.frames := by
  refine h.invariant (I := fun t => (0 : ℤ) ≤ t.shared.size + tally Frame.undoes t.frames) ?_ ?_
  · rintro _ ⟨n, rfl⟩
    simp [initQueue]
  · rintro s l t ih - hst
    obtain ⟨pre, old, new, post, hs, ht, hf, -⟩ := Program.step_frames hst
    have htally := Program.tally_step (w := Frame.undoes) hs ht
    have hnew : tally Frame.undoes new ≤ tally Frame.undoes t.frames := by
      rw [ht, tally_append, tally_append]
      omega
    cases hf with
    | call hc =>
      obtain ⟨-, -, -, h₄, -⟩ := call_accounts hc
      rw [tally_nil] at htally
      omega
    | exec he =>
      rw [tally_cons, tally_nil] at htally
      rcases (exec_size he).2 with h | h <;> omega

/-! ## Values -/

section Values

variable [DecidableEq T]

theorem exec_values (v : T) (h : exec q f a = some (q', new)) :
    q'.called = q.called ∧
      q'.linked.count v + tally (fun f => if f.brings = some v then 1 else 0) new =
        q.linked.count v + (if f.brings = some v then 1 else 0) ∧
      q'.returned.count v + q.dequeued.count v +
          tally (fun f => if f.returns = some v then 1 else 0) new =
        q.returned.count v + q'.dequeued.count v + (if f.returns = some v then 1 else 0) := by
  rcases exec_cases h with h | ⟨rfl, rfl⟩
  · revert h
    fun_cases stmt q f a <;> intro h <;> cases h
    all_goals simp only [tally_cons, tally_nil]
    all_goals simp [Frame.brings, Frame.returns, List.count_singleton]
    all_goals omega
  · simp

/-- A value is linked as often as calls of `Enqueue` brought it, less those still running. -/
theorem called_count [Inhabited T] (h : (system T).ReachableVia ok t) (v : T) :
    t.shared.called.count v = t.shared.linked.count v +
      tally (fun f => if f.brings = some v then 1 else 0) t.frames := by
  have := Program.conserved (P := program)
    (fun q => (q.called.count v : ℤ) - q.linked.count v)
    (fun f => if f.brings = some v then 1 else 0) (fun q a old q' new hf => by
      cases hf with
      | call hc =>
        obtain ⟨h₁, -⟩ := call_accounts hc
        rcases call_frames hc with ⟨rfl, h⟩ | ⟨w, rfl, h⟩ <;>
          simp [h₁, h, Frame.brings, List.count_singleton]
        omega
      | exec he =>
        obtain ⟨h₁, h₂, -⟩ := exec_values v he
        simp only [h₁, tally_cons, tally_nil]
        omega) h
  simp only [initQueue, List.count_nil] at this
  omega

/-- A value is dequeued as often as it was returned or is about to be returned. -/
theorem dequeued_count [Inhabited T] (h : (system T).ReachableVia ok t) (v : T) :
    t.shared.dequeued.count v = t.shared.returned.count v +
      tally (fun f => if f.returns = some v then 1 else 0) t.frames := by
  have := Program.conserved (P := program)
    (fun q => (q.dequeued.count v : ℤ) - q.returned.count v)
    (fun f => if f.returns = some v then 1 else 0) (fun q a old q' new hf => by
      cases hf with
      | call hc =>
        obtain ⟨-, h₂, h₃, -⟩ := call_accounts hc
        rcases call_frames hc with ⟨rfl, -⟩ | ⟨w, rfl, -⟩ <;>
          simp [h₂, h₃, Frame.returns]
      | exec he =>
        obtain ⟨-, -, h₃⟩ := exec_values v he
        simp only [tally_cons, tally_nil]
        omega) h
  simp only [initQueue, List.count_nil] at this
  omega

end Values

end NetworkLibrary.LockFreeQueue
