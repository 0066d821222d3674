import NetworkLibrary.Foundations.Quantile

/-!
# Percentiles

`Statistics::Percentile`, with the doubles taken as exact rationals. For `0 < p ≤ 1` the clamped
rank is the `⌈p * N⌉`-th of the sorted samples, so that the result is their `p`-quantile.
-/

namespace NetworkLibrary.Statistics

open Foundations

/-- `std::sort`. -/
def sort (values : List ℚ) : List ℚ := values.mergeSort (· ≤ ·)

/-- `(std::size_t)std::ceil(p * (double)values.size())`, with the two clamps behind it. -/
def rank (p : ℚ) (size : ℕ) : ℕ :=
  let rank := ⌈p * size⌉.toNat
  let rank := if rank < 1 then 1 else rank
  if rank > size then size else rank

def percentile (values : List ℚ) (p : ℚ) : ℚ :=
  if values.isEmpty then 0
  else
    let values := sort values
    if p ≤ 0 then values.headD 0
    else if p ≥ 1 then values.getLastD 0
    else values.getD (rank p values.length - 1) 0

variable {values : List ℚ} {p : ℚ}

theorem sort_perm (values : List ℚ) : (sort values).Perm values := List.mergeSort_perm _ _

theorem pairwise_sort (values : List ℚ) : (sort values).Pairwise (· ≤ ·) := by
  have h : (sort values).Pairwise fun a b => decide (a ≤ b) = true := List.pairwise_mergeSort
    (fun a b c hab hbc => by
      simp only [decide_eq_true_eq] at hab hbc ⊢
      exact hab.trans hbc)
    (fun a b => by
      simp only [Bool.or_eq_true, decide_eq_true_eq]
      exact le_total a b) values
  exact h.imp fun hab => of_decide_eq_true hab

/-- Neither clamp changes the rank. -/
theorem ceil_eq_rank {size : ℕ} (hsize : 0 < size) (hp : 0 < p) (hp1 : p ≤ 1) :
    1 ≤ rank p size ∧ rank p size ≤ size ∧ ⌈p * size⌉ = rank p size := by
  have hpos : (0 : ℚ) < size := Nat.cast_pos.2 hsize
  have h₁ : 0 < ⌈p * size⌉ := Int.ceil_pos.2 (mul_pos hp hpos)
  have h₂ : ⌈p * size⌉ ≤ size :=
    Int.ceil_le.2 (by rw [Int.cast_natCast]; exact mul_le_of_le_one_left hpos.le hp1)
  have hrank : rank p size = ⌈p * size⌉.toNat := by
    have hone : ¬⌈p * size⌉.toNat < 1 := by omega
    have hend : ¬⌈p * size⌉.toNat > size := by omega
    rw [rank, if_neg hone, if_neg hend]
  omega

/-- What is returned for `p = 1` stands where the rank says as well. -/
theorem percentile_eq (hne : values ≠ []) (hp : 0 < p) (hp1 : p ≤ 1) :
    percentile values p = (sort values).getD (rank p (sort values).length - 1) 0 := by
  have hempty : values.isEmpty = false := by rwa [List.isEmpty_eq_false_iff]
  rw [percentile, hempty, if_neg Bool.false_ne_true]
  simp only
  rw [if_neg (not_le.2 hp)]
  split
  · have h1 : p = 1 := le_antisymm hp1 ‹_›
    subst h1
    have hlen : 0 < (sort values).length := by
      rw [(sort_perm values).length_eq]
      exact List.length_pos_of_ne_nil hne
    have hrank : rank 1 (sort values).length = (sort values).length := by
      have := (ceil_eq_rank hlen one_pos le_rfl).2.2
      rw [one_mul, Int.ceil_natCast] at this
      omega
    rw [hrank, List.getLastD_eq_getLast?, List.getLast?_eq_getElem?, List.getD_eq_getElem?_getD]
  · rfl

/-- **The result is the `p`-quantile of the samples.** -/
theorem isQuantile_percentile (hne : values ≠ []) (hp : 0 < p) (hp1 : p ≤ 1) :
    IsQuantile p values (percentile values p) := by
  have hperm := sort_perm values
  have hlen : 0 < (sort values).length := by
    rw [hperm.length_eq]
    exact List.length_pos_of_ne_nil hne
  obtain ⟨h₁, h₂, hceil⟩ := ceil_eq_rank hlen hp hp1
  have hk : rank p (sort values).length - 1 < (sort values).length := by omega
  have hq := isQuantile_of_ceil (pairwise_sort values) hk
    (by rw [hceil, Nat.sub_add_cancel h₁])
  rw [percentile_eq hne hp hp1, List.getD_eq_getElem?_getD, List.getElem?_eq_getElem hk,
    Option.getD_some]
  exact hq.perm hperm

/-- **The percentile is a sample with at least `p * N` of the samples up to it and fewer below it.**
So it does not depend on the order of the samples and does not decrease as `p` grows. -/
theorem percentile_nearest_rank (hne : values ≠ []) (hp : 0 < p) (hp1 : p ≤ 1) :
    IsQuantile p values (percentile values p) ∧
      (∀ values' : List ℚ, values'.Perm values → percentile values' p = percentile values p) ∧
      ∀ p', p ≤ p' → p' ≤ 1 → percentile values p ≤ percentile values p' := by
  have hq := isQuantile_percentile hne hp hp1
  refine ⟨hq, fun values' hperm => ?_, fun p' hpp' hp' => ?_⟩
  · have hne' : values' ≠ [] := fun h => hne (List.nil_perm.1 (h ▸ hperm))
    exact ((isQuantile_percentile hne' hp hp1).perm hperm).unique hq
  · exact hq.mono (isQuantile_percentile hne (hp.trans_le hpp') hp') hpp'

theorem percentile_nearest_rank_median :
    IsQuantile (1 / 2) [30, 10, 20] (percentile [30, 10, 20] (1 / 2)) ∧
      (∀ values' : List ℚ, values'.Perm [30, 10, 20] →
        percentile values' (1 / 2) = percentile [30, 10, 20] (1 / 2)) ∧
      ∀ p' : ℚ, 1 / 2 ≤ p' → p' ≤ 1 → percentile [30, 10, 20] (1 / 2) ≤ percentile [30, 10, 20] p' :=
  percentile_nearest_rank (List.cons_ne_nil _ _) (by norm_num) (by norm_num)

end NetworkLibrary.Statistics
