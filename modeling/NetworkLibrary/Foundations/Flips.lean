import Mathlib.Data.Nat.Find
import Mathlib.Tactic.Common

/-!
# The lowest bit at which two words differ

Addition and exclusive or carry only upwards, so the lowest bit at which two words differ can be
followed through a computation: `Flips j a b` says that `a` and `b` agree below bit `j` and differ
at it, `Agrees j a b` that they agree up to it. Two flips of the same bit cancel.
-/

namespace Foundations

variable {w : ℕ}

/-- `a` and `b` agree below bit `j` and differ at it. -/
def Flips (j : ℕ) (a b : BitVec w) : Prop :=
  b.setWidth (j + 1) = a.setWidth (j + 1) ^^^ BitVec.twoPow (j + 1) j

/-- `a` and `b` agree up to bit `j`. -/
def Agrees (j : ℕ) (a b : BitVec w) : Prop := b.setWidth (j + 1) = a.setWidth (j + 1)

theorem twoPow_add_twoPow (j : ℕ) :
    BitVec.twoPow (j + 1) j + BitVec.twoPow (j + 1) j = 0#(j + 1) := by
  have hlt : 2 ^ j < 2 ^ (j + 1) := Nat.pow_lt_pow_succ Nat.one_lt_two
  apply BitVec.eq_of_toNat_eq
  rw [BitVec.toNat_add, BitVec.toNat_twoPow, Nat.mod_eq_of_lt hlt, ← Nat.two_mul, ← Nat.pow_succ',
    Nat.mod_self]
  rfl

/-- At the highest bit, exclusive or is addition. -/
theorem xor_twoPow (j : ℕ) (x : BitVec (j + 1)) :
    x ^^^ BitVec.twoPow (j + 1) j = x + BitVec.twoPow (j + 1) j := by
  have hclear : ∀ y : BitVec (j + 1), y[j] = false →
      y ^^^ BitVec.twoPow (j + 1) j = y + BitVec.twoPow (j + 1) j := by
    intro y hy
    rw [BitVec.add_eq_or_of_and_eq_zero]
    · ext i hi
      by_cases hij : i = j
      · subst hij
        simp [hy]
      · simp [hij]
    · rw [BitVec.and_twoPow, if_neg (by simp [hy])]
  cases hx : x[j] with
  | false => exact hclear x hx
  | true =>
    have hy : (x ^^^ BitVec.twoPow (j + 1) j)[j] = false := by simp [hx]
    have h := hclear _ hy
    rw [BitVec.xor_assoc, BitVec.xor_self, BitVec.xor_zero] at h
    rw [← BitVec.add_zero (x ^^^ BitVec.twoPow (j + 1) j), ← twoPow_add_twoPow j,
      ← BitVec.add_assoc, ← h]

variable {j : ℕ} {a b c a' b' : BitVec w}

theorem flips_iff :
    Flips j a b ↔ b.setWidth (j + 1) = a.setWidth (j + 1) + BitVec.twoPow (j + 1) j := by
  rw [Flips, xor_twoPow]

/-- Two different words differ at some lowest bit. -/
theorem exists_flips (h : a ≠ b) : ∃ j < w, Flips j a b := by
  have hex : ∃ i, a.getLsbD i ≠ b.getLsbD i := by
    by_contra hall
    simp only [not_exists, not_not] at hall
    exact h (BitVec.eq_of_getLsbD_eq fun i _ => hall i)
  refine ⟨Nat.find hex, ?_, ?_⟩
  · by_contra hw
    refine Nat.find_spec hex ?_
    rw [BitVec.getLsbD_of_ge _ _ (by omega), BitVec.getLsbD_of_ge _ _ (by omega)]
  · apply BitVec.eq_of_getLsbD_eq
    intro i hi
    rcases Nat.lt_succ_iff_lt_or_eq.1 hi with hlt | rfl
    · have := not_not.1 (Nat.find_min hex hlt)
      simp [hi, this, (Nat.ne_of_gt hlt).symm]
    · have := Nat.find_spec hex
      simp only [BitVec.getLsbD_setWidth, BitVec.getLsbD_xor, BitVec.getLsbD_twoPow]
      revert this
      cases a.getLsbD (Nat.find hex) <;> cases b.getLsbD (Nat.find hex) <;> simp

theorem Flips.ne (h : Flips j a b) : a ≠ b := by
  rintro rfl
  have hbit := congrArg (·.getLsbD j) h
  simp at hbit

/-- Words that agree up to the highest bit are equal. -/
theorem Agrees.eq (h : Agrees j a b) (hj : w ≤ j + 1) : a = b := by
  apply BitVec.eq_of_getLsbD_eq
  intro i hi
  have hbit := congrArg (·.getLsbD i) h
  simpa [show i < j + 1 by omega] using hbit.symm

theorem Agrees.refl (j : ℕ) (a : BitVec w) : Agrees j a a := rfl

/-! ## Through exclusive or -/

theorem Flips.xor_agrees (h : Flips j a b) (h' : Agrees j a' b') :
    Flips j (a ^^^ a') (b ^^^ b') := by
  rw [Flips] at h ⊢
  rw [Agrees] at h'
  rw [BitVec.setWidth_xor, BitVec.setWidth_xor, h, h', BitVec.xor_assoc,
    BitVec.xor_comm (BitVec.twoPow _ _), BitVec.xor_assoc]

theorem Agrees.xor_flips (h : Agrees j a b) (h' : Flips j a' b') :
    Flips j (a ^^^ a') (b ^^^ b') := by
  rw [BitVec.xor_comm a, BitVec.xor_comm b]
  exact h'.xor_agrees h

/-- Two flips cancel. -/
theorem Flips.xor_flips (h : Flips j a b) (h' : Flips j a' b') :
    Agrees j (a ^^^ a') (b ^^^ b') := by
  rw [Flips] at h h'
  rw [Agrees, BitVec.setWidth_xor, BitVec.setWidth_xor, h, h', BitVec.xor_assoc,
    BitVec.xor_comm (BitVec.twoPow _ _), BitVec.xor_assoc, BitVec.xor_self, BitVec.xor_zero]

/-! ## Through addition -/

theorem Flips.add_agrees (hj : j < w) (h : Flips j a b) (h' : Agrees j a' b') :
    Flips j (a + a') (b + b') := by
  rw [flips_iff] at h ⊢
  rw [Agrees] at h'
  rw [BitVec.setWidth_add _ _ hj, BitVec.setWidth_add _ _ hj, h, h', BitVec.add_assoc,
    BitVec.add_comm (BitVec.twoPow _ _), BitVec.add_assoc]

/-- Two flips cancel. -/
theorem Flips.add_flips (hj : j < w) (h : Flips j a b) (h' : Flips j a' b') :
    Agrees j (a + a') (b + b') := by
  rw [flips_iff] at h h'
  rw [Agrees, BitVec.setWidth_add _ _ hj, BitVec.setWidth_add _ _ hj, h, h', BitVec.add_assoc,
    BitVec.add_comm (BitVec.twoPow _ _), BitVec.add_assoc, twoPow_add_twoPow, BitVec.add_zero]

theorem Flips.neg (hj : j < w) (h : Flips j a b) : Flips j (-a) (-b) := by
  rw [flips_iff] at h ⊢
  have hneg : -BitVec.twoPow (j + 1) j = BitVec.twoPow (j + 1) j := BitVec.neg_intMin
  rw [BitVec.setWidth_neg_of_le hj, BitVec.setWidth_neg_of_le hj, h, BitVec.neg_add,
    BitVec.sub_eq_add_neg, hneg]

end Foundations
