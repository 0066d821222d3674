import NetworkLibrary.Foundations.Reservations
import NetworkLibrary.Queue.Accounts

/-!
# Reports of an empty queue

`Size` of `LockFreeQueue` is a reservation counter (`reserves`): `Dequeue` lowers it before it looks
for a value, and raises it again where it was not positive.
-/

namespace NetworkLibrary.LockFreeQueue

open Foundations

variable {T : Type*} {q q' : Queue T} {f : Frame T} {a : Act T} {new : List (Frame T)} {r : Role}

/-- What the frames do to `Size`: `Dequeue` returns false after `undoSize`, and true after `ret`. -/
def Frame.role : Frame T → Option Role
  | .allocNode _ | .setData _ _ | .setNext _ _ | .incNew _ _ | .tagNew _ _ => some .inserts
  | .readTail _ _ | .incOld _ _ _ | .readTailAgain _ _ _ | .readNext _ _ _ _ => some .inserts
  | .testTail _ _ _ _ | .casNext _ _ _ | .casTail _ _ | .help _ _ _ _ | .incSize => some .inserts
  | .decRef _ | .takeFlag _ | .freeNode _ | .setFlag _ => none
  | .decSize => some .asks
  | .undoSize => some .refused
  | .tagNext | .readHead _ | .readCurTail _ _ | .readHeadNext _ _ _ => some .admitted
  | .testHead _ _ _ | .moveTail _ _ | .readData _ _ | .casHead _ _ _ | .ret _ => some .admitted

/-- The calls of `Dequeue`. -/
def removes : Act T → Bool
  | .dequeue => true
  | _ => false

theorem exec_helper (h : exec q f a = some (q', new)) (hf : f.role = none) :
    q'.size = q.size ∧ ∀ f' ∈ new, f'.role = none := by
  rcases exec_cases h with h | ⟨rfl, rfl⟩
  · revert h
    fun_cases stmt q f a <;> intro h <;> cases h <;> simp [Frame.role] at hf ⊢
  · simpa using hf

theorem exec_turn (h : exec q f a = some (q', new)) (hf : f.role = some r) :
    Based Frame.role r new ∧ q'.size = q.size ∨
      r = .inserts ∧ new = [] ∧ q'.size = q.size + 1 ∨
      r = .refused ∧ new = [] ∧ q'.size = q.size + 1 ∨
      r = .admitted ∧ new = [] ∧ q'.size = q.size ∨
      r = .asks ∧ 0 < q.size ∧ Based Frame.role .admitted new ∧ q'.size = q.size - 1 ∨
      r = .asks ∧ q.size ≤ 0 ∧ Based Frame.role .refused new ∧ q'.size = q.size - 1 ∧
        f = .decSize := by
  rcases exec_cases h with h | ⟨rfl, rfl⟩
  · revert h
    fun_cases stmt q f a <;> intro h <;> cases h <;> simp [Frame.role] at hf <;>
      subst hf <;> simp_all [Frame.role, Based]
  · exact .inl ⟨.inl ⟨rfl, hf⟩, rfl⟩

theorem reserves :
    Reserves (program (T := T)) Queue.size Frame.role removes (· = .decSize) where
  call {q q' a new} h := by
    have hc : call q a = some (q', new) := h
    revert hc
    fun_cases call q a <;> intro hc <;> cases hc <;> simp [removes, Based, Frame.role]
  helper h hf := exec_helper h hf
  turn h hf := exists_next (exec_turn h hf)

end NetworkLibrary.LockFreeQueue
