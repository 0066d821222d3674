import Mathlib.Data.List.Basic
import Mathlib.Tactic.Common

/-!
# Parsing a stream piece by piece

A parser of one item looks at the bytes received so far and either needs more, rejects them, or
takes an item from their front. When its answers do not change as more bytes arrive (`Stable`),
the items of a stream do not depend on where the stream was cut: `Parses.append` continues a parse
with the bytes left over, and `Parses.unique` says that a stream has one parse only.
-/

namespace Foundations

/-- The answer of a parser of one item. -/
inductive Next (α β : Type*)
  | more
  | reject
  | item (b : β) (rest : List α)

/-- How the parse of a stream ends. -/
inductive Outcome (α : Type*)
  /-- The rest is waiting for more. -/
  | waiting (rest : List α)
  | rejected

variable {α β : Type*}

def Outcome.isWaiting : Outcome α → Bool
  | waiting _ => true
  | rejected => false

/-- The items of a stream, and how its parse ends. -/
inductive Parses (next : List α → Next α β) : List α → List β → Outcome α → Prop
  | more {s : List α} : next s = .more → Parses next s [] (.waiting s)
  | reject {s : List α} : next s = .reject → Parses next s [] .rejected
  | item {s rest : List α} {b : β} {bs : List β} {o : Outcome α} :
      next s = .item b rest → Parses next rest bs o → Parses next s (b :: bs) o

/-- The answers of a parser do not change as more arrives. -/
structure Stable (next : List α → Next α β) : Prop where
  reject : ∀ s t, next s = .reject → next (s ++ t) = .reject
  item : ∀ s t b rest, next s = .item b rest → next (s ++ t) = .item b (rest ++ t)

variable {next : List α → Next α β} {s t rest : List α} {bs cs : List β} {o p : Outcome α}

/-- A stream has one parse only. -/
theorem Parses.unique (h₁ : Parses next s bs o) (h₂ : Parses next s cs p) : bs = cs ∧ o = p := by
  induction h₁ generalizing cs p with
  | more h =>
    cases h₂ with
    | more => exact ⟨rfl, rfl⟩
    | reject h' => simp [h] at h'
    | item h' => simp [h] at h'
  | reject h =>
    cases h₂ with
    | more h' => simp [h] at h'
    | reject => exact ⟨rfl, rfl⟩
    | item h' => simp [h] at h'
  | item h _ ih =>
    cases h₂ with
    | more h' => simp [h] at h'
    | reject h' => simp [h] at h'
    | item h' hp =>
      obtain ⟨rfl, rfl⟩ := Next.item.inj (h.symm.trans h')
      obtain ⟨rfl, rfl⟩ := ih hp
      exact ⟨rfl, rfl⟩

/-- A parse goes on with what was left over. -/
theorem Parses.append (hst : Stable next) (h₁ : Parses next s bs (.waiting rest))
    (h₂ : Parses next (rest ++ t) cs o) : Parses next (s ++ t) (bs ++ cs) o := by
  generalize hw : Outcome.waiting rest = w at h₁
  induction h₁ with
  | more h =>
    obtain rfl := Outcome.waiting.inj hw
    exact h₂
  | reject h => cases hw
  | item h _ ih => exact .item (hst.item _ t _ _ h) (ih hw)

/-- A rejected stream stays rejected. -/
theorem Parses.append_rejected (hst : Stable next) (h : Parses next s bs .rejected) (t : List α) :
    Parses next (s ++ t) bs .rejected := by
  generalize hw : Outcome.rejected = w at h
  induction h with
  | more h => cases hw
  | reject h => exact .reject (hst.reject _ t h)
  | item h _ ih => exact .item (hst.item _ t _ _ h) (ih hw)

/-- What is waiting is not a whole item. -/
theorem Parses.next_waiting (h : Parses next s bs (.waiting rest)) : next rest = .more := by
  generalize hw : Outcome.waiting rest = w at h
  induction h with
  | more h =>
    obtain rfl := Outcome.waiting.inj hw
    exact h
  | reject h => cases hw
  | item h _ ih => exact ih hw

/-- A prefix of a concatenation consists of whole lists and a proper part of the next one. -/
theorem exists_split_of_prefix_flatten {L : List (List α)} (hL : ∀ x ∈ L, x ≠ [])
    (h : s <+: L.flatten) :
    ∃ k rest, s = (L.take k).flatten ++ rest ∧
      (L[k]? = none ∧ rest = [] ∨ ∃ x t, L[k]? = some x ∧ rest ++ t = x ∧ t ≠ []) := by
  induction L generalizing s with
  | nil => exact ⟨0, [], by simpa using h, .inl ⟨rfl, rfl⟩⟩
  | cons x L ih =>
    have hL' : ∀ y ∈ L, y ≠ [] := fun y hy => hL y (List.mem_cons_of_mem _ hy)
    obtain ⟨t, ht⟩ := h
    rw [List.flatten_cons] at ht
    rcases List.append_eq_append_iff.1 ht with ⟨u, rfl, hu⟩ | ⟨u, rfl, hu⟩
    · rcases eq_or_ne u [] with rfl | hne
      · refine ⟨1, [], by simp, ?_⟩
        cases L with
        | nil => exact .inl ⟨rfl, rfl⟩
        | cons y L => exact .inr ⟨y, y, rfl, rfl, hL' y (by simp)⟩
      · exact ⟨0, s, rfl, .inr ⟨_, u, rfl, rfl, hne⟩⟩
    · obtain ⟨k, rest, rfl, hk⟩ := ih hL' ⟨t, hu.symm⟩
      exact ⟨k + 1, rest, by simp, by simpa using hk⟩

/-- How many elements have arrived of the first list that has not arrived as a whole, when `n` have
arrived of the lists in their order. -/
def unfinished : List (List α) → ℕ → ℕ
  | [], _ => 0
  | x :: L, n => if n < x.length then n else unfinished L (n - x.length)

theorem unfinished_zero (L : List (List α)) : unfinished L 0 = 0 := by
  induction L with
  | nil => rfl
  | cons x L ih =>
    rw [unfinished, Nat.zero_sub, ih]
    split <;> rfl

end Foundations
