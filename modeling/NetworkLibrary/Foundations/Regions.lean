import Mathlib.Data.List.Nodup
import Mathlib.Tactic.Common

/-!
# Regions of a memory

Every address lies in one region, given by a function; a list fills a region if its members are the
addresses of the region. `relocate` moves addresses from one region to another and leaves all other
regions as they are, so that an invariant about a region has to be looked at again only where
addresses come or go.
-/

namespace Foundations

variable {α ρ : Type*}

/-- The list has the addresses of the region `r` as its members. -/
def Fills (place : α → ρ) (r : ρ) (l : List α) : Prop := ∀ a, a ∈ l ↔ place a = r

/-- The addresses of `M` are moved to the region `r`. -/
def relocate [DecidableEq α] (place : α → ρ) (M : List α) (r : ρ) : α → ρ := fun a =>
  if a ∈ M then r else place a

variable {place : α → ρ} {q q' r : ρ} {M l l' : List α} {a : α}

theorem Fills.congr (h : Fills place r l) (hl : ∀ a, a ∈ l' ↔ a ∈ l) : Fills place r l' := fun a =>
  (hl a).trans (h a)

variable [DecidableEq α]

@[simp] theorem relocate_nil (place : α → ρ) (r : ρ) : relocate place [] r = place := by
  funext a
  simp [relocate]

theorem relocate_of_mem (h : a ∈ M) : relocate place M r a = r := if_pos h

theorem relocate_of_notMem (h : a ∉ M) : relocate place M r a = place a := if_neg h

/-- A third region keeps its addresses. -/
theorem relocate_eq_iff (hM : ∀ a ∈ M, place a = q) (hr : r ≠ q) (hr' : r ≠ q') :
    relocate place M q' a = r ↔ place a = r := by
  by_cases h : a ∈ M
  · rw [relocate_of_mem h, hM a h]
    exact ⟨fun h => absurd h.symm hr', fun h => absurd h.symm hr⟩
  · rw [relocate_of_notMem h]

theorem Fills.relocate (h : Fills place r l) (hM : ∀ a ∈ M, place a = q) (hr : r ≠ q)
    (hr' : r ≠ q') : Fills (relocate place M q') r l := fun a =>
  (h a).trans (relocate_eq_iff hM hr hr').symm

/-- The region the addresses come to. -/
theorem Fills.relocate_to (h : Fills place q' l) :
    Fills (Foundations.relocate place M q') q' (M ++ l) := by
  intro a
  by_cases ha : a ∈ M
  · simp [ha, relocate_of_mem ha]
  · simp [ha, relocate_of_notMem ha, h a]

/-- The region the addresses come from. -/
theorem Fills.relocate_from (h : Fills place q (M ++ l)) (hd : (M ++ l).Nodup) (hq : q ≠ q') :
    Fills (Foundations.relocate place M q') q l := by
  intro a
  by_cases ha : a ∈ M
  · rw [relocate_of_mem ha]
    exact ⟨fun hl => absurd hl (List.disjoint_of_nodup_append hd ha), fun h => absurd h.symm hq⟩
  · rw [relocate_of_notMem ha, ← h a, List.mem_append]
    exact ⟨.inr, fun h => h.resolve_left ha⟩

end Foundations
