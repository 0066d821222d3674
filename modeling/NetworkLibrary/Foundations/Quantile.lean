import Mathlib.Algebra.Order.Floor.Ring
import Mathlib.Data.Rat.Floor
import Mathlib.Data.List.Sort
import Mathlib.Tactic.Common
import Mathlib.Tactic.Linarith

/-!
# Quantiles of a list

A `q`-quantile of a list is an element that at least the `q`-th part of the list is no greater than
and less than the `q`-th part of it is smaller than. The two counts alone determine it, as no
element lies between two such values (`IsQuantile.le`); in a sorted list it stands at the place that
the ceiling of `q` times the length gives (`isQuantile_of_ceil`).
-/

namespace Foundations

variable {α : Type*} [LinearOrder α]

/-- At least `q * N` of the `N` elements are `≤ v`, and fewer are `< v`. -/
structure IsQuantile (q : ℚ) (l : List α) (v : α) : Prop where
  mem : v ∈ l
  le : q * l.length ≤ l.countP (· ≤ v)
  lt : (l.countP (· < v) : ℚ) < q * l.length

variable {q r : ℚ} {l l' : List α} {v w : α}

/-- A quantile does not depend on the order of the list. -/
theorem IsQuantile.perm (h : IsQuantile q l v) (hl : l.Perm l') : IsQuantile q l' v where
  mem := hl.subset h.mem
  le := by rw [← hl.length_eq, ← hl.countP_eq]; exact h.le
  lt := by rw [← hl.length_eq, ← hl.countP_eq]; exact h.lt

/-- **Quantiles are ordered as their parts.** -/
theorem IsQuantile.mono (hv : IsQuantile q l v) (hw : IsQuantile r l w) (hqr : q ≤ r) : v ≤ w := by
  by_contra hwv
  have hcount : l.countP (· ≤ w) ≤ l.countP (· < v) :=
    List.countP_mono_left fun x _ hx => by
      have := of_decide_eq_true hx
      exact decide_eq_true (this.trans_lt (not_le.1 hwv))
  have hparts : q * l.length ≤ r * l.length := mul_le_mul_of_nonneg_right hqr (Nat.cast_nonneg _)
  have : (l.countP (· ≤ w) : ℚ) ≤ l.countP (· < v) := Nat.cast_le.2 hcount
  linarith [hv.lt, hw.le]

theorem IsQuantile.unique (hv : IsQuantile q l v) (hw : IsQuantile q l w) : v = w :=
  le_antisymm (hv.mono hw le_rfl) (hw.mono hv le_rfl)

/-! ## Sorted lists -/

/-- The elements up to a place of a sorted list are no greater than the one there. -/
theorem lt_countP_le (hl : l.Pairwise (· ≤ ·)) {k : ℕ} (hk : k < l.length) :
    k < l.countP (· ≤ l[k]) := by
  have hall : (l.take (k + 1)).countP (· ≤ l[k]) = (l.take (k + 1)).length := by
    rw [List.countP_eq_length]
    intro x hx
    obtain ⟨i, hi, rfl⟩ := List.getElem_of_mem hx
    rw [List.length_take] at hi
    rw [List.getElem_take]
    rcases Nat.lt_or_eq_of_le (Nat.le_of_lt_succ (lt_min_iff.1 hi).1) with hik | rfl
    · exact decide_eq_true (List.pairwise_iff_getElem.1 hl i k _ hk hik)
    · exact decide_eq_true le_rfl
  have hle := (List.take_sublist (k + 1) l).countP_le (p := (· ≤ l[k]))
  rw [hall, List.length_take] at hle
  omega

/-- No element from a place of a sorted list on is smaller than the one there. -/
theorem countP_lt_le (hl : l.Pairwise (· ≤ ·)) {k : ℕ} (hk : k < l.length) :
    l.countP (· < l[k]) ≤ k := by
  have hnone : (l.drop k).countP (· < l[k]) = 0 := by
    rw [List.countP_eq_zero]
    intro x hx
    obtain ⟨i, hi, rfl⟩ := List.getElem_of_mem hx
    rw [List.length_drop] at hi
    rw [List.getElem_drop, decide_eq_true_eq, not_lt]
    rcases Nat.eq_zero_or_pos i with rfl | hpos
    · exact le_rfl
    · exact List.pairwise_iff_getElem.1 hl k (k + i) hk (by omega) (by omega)
  calc l.countP (· < l[k])
      = (l.take k ++ l.drop k).countP (· < l[k]) := by rw [List.take_append_drop]
    _ = (l.take k).countP (· < l[k]) := by rw [List.countP_append, hnone, add_zero]
    _ ≤ (l.take k).length := List.countP_le_length
    _ ≤ k := List.length_take_le ..

/-- **The nearest rank**: in a sorted list of `N`, the `q`-quantile is the `⌈q * N⌉`-th. -/
theorem isQuantile_of_ceil (hl : l.Pairwise (· ≤ ·)) {k : ℕ} (hk : k < l.length)
    (hceil : ⌈q * l.length⌉ = ((k + 1 : ℕ) : ℤ)) : IsQuantile q l l[k] where
  mem := List.getElem_mem hk
  le := by
    have hle : q * l.length ≤ ((k + 1 : ℕ) : ℤ) := Int.ceil_le.1 hceil.le
    have hcount : ((k + 1 : ℕ) : ℚ) ≤ l.countP (· ≤ l[k]) := Nat.cast_le.2 (lt_countP_le hl hk)
    rw [Int.cast_natCast] at hle
    exact hle.trans hcount
  lt := by
    have hlt : ((k : ℤ) : ℚ) < q * l.length := Int.lt_ceil.1 (by rw [hceil]; omega)
    have hcount : (l.countP (· < l[k]) : ℚ) ≤ k := Nat.cast_le.2 (countP_lt_le hl hk)
    rw [Int.cast_natCast] at hlt
    exact hcount.trans_lt hlt

end Foundations
