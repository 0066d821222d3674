import Mathlib.Data.Nat.Digits.Defs
import Mathlib.Tactic.Ring
import Mathlib.Tactic.Common

/-!
# Numbers as bytes

The value of an integer type of `n` bytes is `8 * n` bits; in memory it is its `n` bytes, the least
significant one first. `ofBytes` is the inverse of `toBytes`.
-/

namespace Foundations

/-- The `n` lowest bytes of a number, the lowest one first. -/
def leBytes : ℕ → ℕ → List UInt8
  | 0, _ => []
  | n + 1, v => UInt8.ofNat v :: leBytes n (v / 256)

/-- A value of `n` bytes in memory. -/
def toBytes (n : ℕ) (v : BitVec (8 * n)) : List UInt8 := leBytes n v.toNat

/-- The value of `n` bytes of memory. -/
def ofBytes (n : ℕ) (bytes : List UInt8) : BitVec (8 * n) :=
  BitVec.ofNat _ (Nat.ofDigits 256 (bytes.map (·.toNat)))

theorem length_leBytes (n v : ℕ) : (leBytes n v).length = n := by
  induction n generalizing v with
  | zero => rfl
  | succ n ih => rw [leBytes, List.length_cons, ih]

@[simp] theorem length_toBytes (n : ℕ) (v : BitVec (8 * n)) : (toBytes n v).length = n :=
  length_leBytes n _

theorem ofDigits_leBytes (n v : ℕ) :
    Nat.ofDigits 256 ((leBytes n v).map (·.toNat)) = v % 256 ^ n := by
  induction n generalizing v with
  | zero => simp [leBytes, Nat.mod_one]
  | succ n ih =>
    have hsplit : v % 256 ^ (n + 1) = v % 256 + 256 * (v / 256 % 256 ^ n) := by
      rw [pow_succ', Nat.mod_mul]
    rw [leBytes, List.map_cons, Nat.ofDigits_cons, ih, hsplit]
    rfl

theorem ofBytes_toBytes (n : ℕ) (v : BitVec (8 * n)) : ofBytes n (toBytes n v) = v := by
  have hlt : v.toNat < 256 ^ n := by
    have := v.isLt
    rwa [pow_mul] at this
  rw [ofBytes, toBytes, ofDigits_leBytes, Nat.mod_eq_of_lt hlt, BitVec.ofNat_toNat,
    BitVec.setWidth_eq]

end Foundations
