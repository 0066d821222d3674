import Mathlib.Data.List.Basic
import Mathlib.Tactic.Common

/-!
# Ciphers with feedback

A stream is enciphered symbol by symbol, each under the symbol that was written before it and its
position. `encipher` and `decipher` undo each other whenever they do so on one symbol.
-/

namespace Foundations

variable {α : Type*}

/-- Enciphers a list whose first symbol is at position `i`, after the cipher symbol `prev`. -/
def encipher (e : α → ℕ → α → α) : α → ℕ → List α → List α
  | _, _, [] => []
  | prev, i, x :: xs => e prev i x :: encipher e (e prev i x) (i + 1) xs

/-- Deciphers a list whose first symbol is at position `i`, after the cipher symbol `prev`. -/
def decipher (d : α → ℕ → α → α) : α → ℕ → List α → List α
  | _, _, [] => []
  | prev, i, c :: cs => d prev i c :: decipher d c (i + 1) cs

variable {e d : α → ℕ → α → α}

@[simp] theorem length_encipher (prev : α) (i : ℕ) (xs : List α) :
    (encipher e prev i xs).length = xs.length := by
  induction xs generalizing prev i with
  | nil => rfl
  | cons x xs ih => simp [encipher, ih]

@[simp] theorem length_decipher (prev : α) (i : ℕ) (cs : List α) :
    (decipher d prev i cs).length = cs.length := by
  induction cs generalizing prev i with
  | nil => rfl
  | cons c cs ih => simp [decipher, ih]

theorem decipher_encipher (h : ∀ prev i x, d prev i (e prev i x) = x) (prev : α) (i : ℕ)
    (xs : List α) : decipher d prev i (encipher e prev i xs) = xs := by
  induction xs generalizing prev i with
  | nil => rfl
  | cons x xs ih => rw [encipher, decipher, h, ih]

theorem encipher_decipher (h : ∀ prev i c, e prev i (d prev i c) = c) (prev : α) (i : ℕ)
    (cs : List α) : encipher e prev i (decipher d prev i cs) = cs := by
  induction cs generalizing prev i with
  | nil => rfl
  | cons c cs ih => rw [decipher, encipher, h, ih]

/-- A symbol is deciphered under the one before it and its position. -/
theorem getD_decipher (prev : α) (i : ℕ) (cs : List α) (j : ℕ) (hj : j < cs.length) (x : α) :
    (decipher d prev i cs).getD j x = d ((prev :: cs).getD j x) (i + j) (cs.getD j x) := by
  induction cs generalizing prev i j with
  | nil => cases hj
  | cons c cs ih =>
    cases j with
    | zero => rfl
    | succ j =>
      have := ih c (i + 1) j (Nat.lt_of_succ_lt_succ hj)
      simpa [decipher, Nat.add_assoc, Nat.add_comm 1 j] using this

/-- Deciphering from the back: a symbol is deciphered under the cipher symbol before it. -/
theorem decipher_append_pair (prev : α) (i : ℕ) (cs : List α) (b c : α) :
    decipher d prev i (cs ++ [b, c]) =
      decipher d prev i (cs ++ [b]) ++ [d b (i + cs.length + 1) c] := by
  induction cs generalizing prev i with
  | nil => rfl
  | cons a cs ih =>
    simp only [List.cons_append, decipher, ih, List.length_cons]
    rw [Nat.add_right_comm i 1 cs.length, Nat.add_assoc i cs.length 1]

end Foundations
