import NetworkLibrary.Foundations.Transition

/-!
# Two systems side by side

A run of `M.prod N` is a run of each of the two systems, step by step; a condition on the pair of
labels says which steps belong together. A relation between the states that every such step keeps
holds in every pair of states reached (`ReachableVia.related`), so that what one of the systems
does can be read off the other.
-/

namespace Foundations

namespace Lts

variable {σ τ α β : Type*}

/-- Both systems take a step. -/
def prod (M : Lts σ α) (N : Lts τ β) : Lts (σ × τ) (α × β) where
  init s := M.init s.1 ∧ N.init s.2
  step s l := (M.step s.1 l.1).bind fun t => (N.step s.2 l.2).map fun u => (t, u)

variable {M : Lts σ α} {N : Lts τ β} {speaks : α → β → Prop}

theorem prod_step {s t : σ × τ} {l : α × β} :
    (M.prod N).step s l = some t ↔ M.step s.1 l.1 = some t.1 ∧ N.step s.2 l.2 = some t.2 := by
  obtain ⟨t₁, t₂⟩ := t
  simp only [prod, Option.bind_eq_some_iff, Option.map_eq_some_iff, Prod.mk.injEq]
  constructor
  · rintro ⟨t, h₁, u, h₂, rfl, rfl⟩
    exact ⟨h₁, h₂⟩
  · rintro ⟨h₁, h₂⟩
    exact ⟨t₁, h₁, t₂, h₂, rfl, rfl⟩

/-- The first system runs as it does alone. -/
theorem ReachableVia.fst {s : σ × τ}
    (h : (M.prod N).ReachableVia (fun _ l => speaks l.1 l.2) s) : M.Reachable s.1 := by
  induction h with
  | start h => exact .start h.1
  | next _ _ hst ih => exact ih.next trivial (prod_step.1 hst).1

/-- **A relation that every pair of steps keeps.** What is known of the first system may be used. -/
theorem ReachableVia.related {R : σ → τ → Prop} {J : σ → Prop} (hJ : ∀ {s}, M.Reachable s → J s)
    (h0 : ∀ s t, M.init s → N.init t → R s t)
    (hs : ∀ s t a b s' t', J s → J s' → R s t → speaks a b → M.step s a = some s' →
      N.step t b = some t' → R s' t')
    {s : σ × τ} (h : (M.prod N).ReachableVia (fun _ l => speaks l.1 l.2) s) : R s.1 s.2 := by
  induction h with
  | start h => exact h0 _ _ h.1 h.2
  | next hr hok hst ih =>
    obtain ⟨h₁, h₂⟩ := prod_step.1 hst
    exact hs _ _ _ _ _ _ (hJ (fst hr)) (hJ ((fst hr).next trivial h₁)) ih hok h₁ h₂

end Lts

end Foundations
