import Mathlib.Data.List.Nodup
import Mathlib.Tactic.Common

/-!
# Linked lists in memory

A memory gives every address a link, and one address is the null pointer. `Links nil next a l` says
that following the links from `a` visits the addresses of `l` and then ends: `l` is determined by
`a` (`Links.unique`), only the links of its members matter (`Links.congr`), and writing the link of
its last member appends to it (`Links.concat`).
-/

namespace Foundations

variable {α : Type*}

/-- Following `next` from an address visits the addresses of a list, up to `nil`. -/
def Links (nil : α) (next : α → α) : α → List α → Prop
  | a, [] => a = nil
  | a, x :: l => a = x ∧ x ≠ nil ∧ Links nil next (next x) l

instance Links.decidable [DecidableEq α] (nil : α) (next : α → α) (a : α) (l : List α) :
    Decidable (Links nil next a l) :=
  match l with
  | [] => inferInstanceAs (Decidable (a = nil))
  | x :: l =>
    have := Links.decidable nil next (next x) l
    inferInstanceAs (Decidable (a = x ∧ x ≠ nil ∧ Links nil next (next x) l))

variable {nil a x y : α} {next next' : α → α} {l l' pre rest : List α}

@[simp] theorem links_nil : Links nil next a [] ↔ a = nil := Iff.rfl

@[simp] theorem links_cons :
    Links nil next a (x :: l) ↔ a = x ∧ x ≠ nil ∧ Links nil next (next x) l := Iff.rfl

/-- A list in memory is determined by its first address. -/
theorem Links.unique (h : Links nil next a l) (h' : Links nil next a l') : l = l' := by
  induction l generalizing a l' with
  | nil =>
    cases l' with
    | nil => rfl
    | cons y l' => exact absurd (h'.1.symm.trans h) h'.2.1
  | cons x l ih =>
    cases l' with
    | nil => exact absurd (h.1.symm.trans h') h.2.1
    | cons y l' =>
      obtain ⟨rfl, -, h⟩ := h
      obtain ⟨rfl, -, h'⟩ := h'
      rw [ih h h']

theorem Links.eq_nil (h : Links nil next nil l) : l = [] := by
  cases l with
  | nil => rfl
  | cons x l => exact absurd h.1.symm h.2.1

/-- Only the links of the members matter. -/
theorem Links.congr (h : Links nil next a l) (heq : ∀ n ∈ l, next' n = next n) :
    Links nil next' a l := by
  induction l generalizing a with
  | nil => exact h
  | cons x l ih =>
    obtain ⟨rfl, hne, h⟩ := h
    rw [links_cons, heq _ (by simp)]
    exact ⟨rfl, hne, ih h fun n hn => heq n (by simp [hn])⟩

theorem Links.ne_nil (h : Links nil next a l) : ∀ n ∈ l, n ≠ nil := by
  induction l generalizing a with
  | nil => simp
  | cons x l ih =>
    intro n hn
    rcases List.mem_cons.1 hn with rfl | hn
    · exact h.2.1
    · exact ih h.2.2 n hn

/-- The list from a member on. -/
theorem Links.drop (h : Links nil next a (pre ++ x :: rest)) : Links nil next (next x) rest := by
  induction pre generalizing a with
  | nil => exact h.2.2
  | cons y pre ih => exact ih h.2.2

/-- A member that is not the last one has a link. -/
theorem Links.next_ne_nil (h : Links nil next a (pre ++ x :: rest)) :
    ∀ n ∈ pre, next n ≠ nil := by
  induction pre generalizing a with
  | nil => simp
  | cons y pre ih =>
    intro n hn
    rcases List.mem_cons.1 hn with rfl | hn
    · cases pre with
      | nil => exact h.2.2.1 ▸ h.2.2.2.1
      | cons z pre => exact h.2.2.1 ▸ h.2.2.2.1
    · exact ih h.2.2 n hn

/-- The link of a member is a member or null. -/
theorem Links.next_mem (h : Links nil next a l) (hx : x ∈ l) (hne : next x ≠ nil) : next x ∈ l := by
  obtain ⟨pre, rest, rfl⟩ := List.append_of_mem hx
  cases rest with
  | nil => exact absurd h.drop hne
  | cons y rest => simp [h.drop.1]

/-- A list in memory visits no address twice. -/
theorem Links.nodup (h : Links nil next a l) : l.Nodup := by
  induction l generalizing a with
  | nil => exact List.nodup_nil
  | cons x l ih =>
    refine List.nodup_cons.2 ⟨fun hx => ?_, ih h.2.2⟩
    obtain ⟨pre, rest, rfl⟩ := List.append_of_mem hx
    -- from `x` on there would be two lists of different lengths
    have hlist := Links.unique h.2.2.drop h.2.2
    have hlen := congrArg List.length hlist
    simp only [List.length_append, List.length_cons] at hlen
    omega

/-- A member whose link is null is the last one. -/
theorem Links.rest_eq_nil (h : Links nil next a (pre ++ x :: rest)) (hx : next x = nil) :
    rest = [] := by
  cases rest with
  | nil => rfl
  | cons y rest =>
    obtain ⟨h, hne, -⟩ := h.drop
    exact absurd (h.symm.trans hx) hne

/-- Writing the link of the last member appends to the list. -/
theorem Links.concat (h : Links nil next a (pre ++ [x])) (hx : next' x = y)
    (heq : ∀ n ∈ pre, next' n = next n) (hy : y ≠ nil) (hnil : next' y = nil) :
    Links nil next' a (pre ++ [x, y]) := by
  induction pre generalizing a with
  | nil =>
    obtain ⟨rfl, hne, -⟩ := h
    exact ⟨rfl, hne, hx, hy, hnil⟩
  | cons z pre ih =>
    obtain ⟨rfl, hne, h⟩ := h
    refine ⟨rfl, hne, ?_⟩
    rw [heq _ (by simp)]
    exact ih h fun n hn => heq n (by simp [hn])

end Foundations
