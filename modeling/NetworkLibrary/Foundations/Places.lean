import Mathlib.Data.List.Count
import Mathlib.Data.List.Nodup
import Mathlib.Logic.Function.Basic

/-!
# Things in places

A thing is in one place or in none, and every place keeps a list of what is in it. The lists are
in order (`Listed`) when each thing is listed once where it is, and nowhere else. Taking a thing
out of a place and putting one into a place keep this, and the lists of several places together
list each thing once that is in one of them (`Listed.count_flatMap`).
-/

namespace Foundations

variable {κ π : Type*} [DecidableEq κ] [DecidableEq π]

/-- The lists of the places, for the place that each thing is in. -/
def Listed (place : κ → Option π) (list : π → List κ) : Prop :=
  ∀ p k, (list p).count k = if place k = some p then 1 else 0

namespace Listed

variable {place place' : κ → Option π} {list : π → List κ} {k : κ} {p : π}

theorem empty (hplace : ∀ k, place k = none) (hlist : ∀ p, list p = []) : Listed place list := by
  intro p k
  rw [hlist, hplace, List.count_nil, if_neg (Option.some_ne_none p).symm]

theorem congr (h : Listed place list) (hplace : ∀ k, place' k = place k) : Listed place' list := by
  rwa [show place' = place from funext hplace]

theorem mem_iff (h : Listed place list) : k ∈ list p ↔ place k = some p := by
  rw [← List.one_le_count_iff, h]
  split <;> simp [*]

/-- Taking a thing out of the place where it is. -/
theorem take (h : Listed place list) (hk : place k = some p) (hplace : place' k = none)
    (hrest : ∀ j, j ≠ k → place' j = place j) :
    Listed place' (Function.update list p ((list p).erase k)) := by
  intro q j
  by_cases hj : j = k
  · subst hj
    rw [hplace, if_neg (Option.some_ne_none q).symm]
    by_cases hq : q = p
    · rw [hq, Function.update_self, List.count_erase_self, h, if_pos hk]
    · have hqp : place j ≠ some q := fun hjq => hq (Option.some.inj (hjq.symm.trans hk))
      rw [Function.update_of_ne hq, h, if_neg hqp]
  · rw [hrest j hj, ← h q j]
    by_cases hq : q = p
    · rw [hq, Function.update_self, List.count_erase_of_ne hj]
    · rw [Function.update_of_ne hq]

/-- Putting a thing into a place that was in none. -/
theorem put (h : Listed place list) (hk : place k = none) (hplace : place' k = some p)
    (hrest : ∀ j, j ≠ k → place' j = place j) :
    Listed place' (Function.update list p (list p ++ [k])) := by
  intro q j
  by_cases hj : j = k
  · subst hj
    have hnone : ∀ q, (list q).count j = 0 := fun q => by
      rw [h, hk, if_neg (Option.some_ne_none q).symm]
    rw [hplace]
    by_cases hq : q = p
    · rw [hq, Function.update_self, List.count_append, hnone, List.count_singleton_self,
        if_pos rfl]
    · have hpq : some p ≠ some q := fun hpq => hq (Option.some.inj hpq).symm
      rw [Function.update_of_ne hq, hnone, if_neg hpq]
  · rw [hrest j hj, ← h q j]
    by_cases hq : q = p
    · rw [hq, Function.update_self, List.count_append,
        List.count_eq_zero_of_not_mem (mt List.mem_singleton.1 hj), Nat.add_zero]
    · rw [Function.update_of_ne hq]

/-- **The lists of different places, one after the other.** -/
theorem count_flatMap (h : Listed place list) {places : List π} (hp : places.Nodup) (k : κ) :
    (places.flatMap list).count k = if ∃ p ∈ places, place k = some p then 1 else 0 := by
  induction places with
  | nil => simp
  | cons p places ih =>
    obtain ⟨hnot, hp⟩ := List.nodup_cons.1 hp
    rw [List.flatMap_cons, List.count_append, h, ih hp]
    by_cases hk : place k = some p
    · have hrest : ¬∃ q ∈ places, place k = some q := by
        rintro ⟨q, hq, hkq⟩
        exact hnot (Option.some.inj (hk.symm.trans hkq) ▸ hq)
      have hhere : ∃ q ∈ p :: places, place k = some q := ⟨p, List.mem_cons_self .., hk⟩
      rw [if_pos hk, if_neg hrest, if_pos hhere]
    · rw [if_neg hk, Nat.zero_add]
      simp only [List.mem_cons, exists_eq_or_imp, hk, false_or]

end Listed

end Foundations
