import Mathlib.Data.List.Forall2
import Mathlib.Data.Option.Basic

/-!
# Labelled transition systems

A system is given by its initial states and a partial step function: a label resolves every
choice of the environment (which thread runs, what an external call answers), so that a run is
a list of labels and can be evaluated.

* `ReachableVia ok`: the states of the runs all of whose steps meet the condition `ok`;
* `ReachableVia.invariant`: the induction over a run, done once for all invariants;
* `run`: the run of a list of labels; `exists_reachable_of_run` finds reachable states with it;
* `exists_run_of_forall₂`: what two runs keep in common.
-/

namespace Foundations

/-- A labelled transition system with a partial step function. -/
structure Lts (σ α : Type*) where
  /-- The initial states. -/
  init : σ → Prop
  /-- One step under a label, if the label is possible in the state. -/
  step : σ → α → Option σ

namespace Lts

variable {σ α : Type*} (M : Lts σ α)

/-- The states of the runs all of whose steps meet the condition `ok`. -/
inductive ReachableVia (ok : σ → α → Prop) : σ → Prop
  | start {s : σ} : M.init s → ReachableVia ok s
  | next {s t : σ} {a : α} : ReachableVia ok s → ok s a → M.step s a = some t → ReachableVia ok t

/-- The states of all runs. -/
def Reachable (s : σ) : Prop := M.ReachableVia (fun _ _ => True) s

variable {M} {ok : σ → α → Prop}

/-- **Induction over a run.** What holds initially and is kept by every step that meets the
condition holds in every state reached. -/
theorem ReachableVia.invariant {I : σ → Prop} (h0 : ∀ s, M.init s → I s)
    (hs : ∀ s a t, I s → ok s a → M.step s a = some t → I t) {s : σ} (h : M.ReachableVia ok s) :
    I s := by
  induction h with
  | start h => exact h0 _ h
  | next _ hok hst ih => exact hs _ _ _ ih hok hst

/-- A second invariant may use one that is known already. -/
theorem ReachableVia.invariant₂ {J I : σ → Prop} (hJ : ∀ {s}, M.ReachableVia ok s → J s)
    (h0 : ∀ s, M.init s → I s)
    (hs : ∀ s a t, J s → J t → I s → ok s a → M.step s a = some t → I t) {s : σ}
    (h : M.ReachableVia ok s) : I s := by
  induction h with
  | start h => exact h0 _ h
  | next hr hok hst ih => exact hs _ _ _ (hJ hr) (hJ (hr.next hok hst)) ih hok hst

theorem ReachableVia.mono {ok' : σ → α → Prop} (hok : ∀ s a, ok s a → ok' s a) {s : σ}
    (h : M.ReachableVia ok s) : M.ReachableVia ok' s := by
  induction h with
  | start h => exact .start h
  | next _ h hst ih => exact ih.next (hok _ _ h) hst

theorem ReachableVia.reachable {s : σ} (h : M.ReachableVia ok s) : M.Reachable s :=
  h.mono fun _ _ _ => trivial

variable (M)

/-- The run of a list of labels, as long as its steps meet a decidable condition. -/
def run (c : σ → α → Bool) : σ → List α → Option σ
  | s, [] => some s
  | s, a :: as => if c s a then (M.step s a).bind fun t => run c t as else none

variable {M}

theorem run_append {c : σ → α → Bool} (s : σ) (as bs : List α) :
    M.run c s (as ++ bs) = (M.run c s as).bind fun t => M.run c t bs := by
  induction as generalizing s with
  | nil => rfl
  | cons a as ih =>
    rw [List.cons_append, run, run]
    split
    · simp only [Option.bind_assoc, ih]
    · rfl

theorem ReachableVia.run {c : σ → α → Bool} (hc : ∀ s a, c s a = true → ok s a) {s t : σ}
    (as : List α) (h : M.ReachableVia ok s) (hr : M.run c s as = some t) : M.ReachableVia ok t := by
  induction as generalizing s with
  | nil =>
    obtain rfl := Option.some.inj hr
    exact h
  | cons a as ih =>
    rw [Lts.run, Option.ite_none_right_eq_some] at hr
    obtain ⟨hca, hr⟩ := hr
    obtain ⟨u, hu, hr⟩ := Option.bind_eq_some_iff.1 hr
    exact ih (h.next (hc s a hca) hu) hr

/-- **Two runs side by side.** States related by `R` stay so under labels related by `L`, as long as
each step of the one system has one of the other that answers it. -/
theorem exists_run_of_forall₂ {σ' α' : Type*} {M' : Lts σ' α'} {R : σ → σ' → Prop}
    {L : α → α' → Prop}
    (hstep : ∀ s s' a a' t, R s s' → L a a' → M.step s a = some t →
      ∃ t', M'.step s' a' = some t' ∧ R t t')
    {as : List α} {as' : List α'} (has : List.Forall₂ L as as') {s t : σ} {s' : σ'} (h : R s s')
    (hr : M.run (fun _ _ => true) s as = some t) :
    ∃ t', M'.run (fun _ _ => true) s' as' = some t' ∧ R t t' := by
  induction has generalizing s s' with
  | nil =>
    obtain rfl := Option.some.inj hr
    exact ⟨s', rfl, h⟩
  | cons ha _ ih =>
    rw [run, if_pos rfl] at hr
    obtain ⟨u, hu, hr⟩ := Option.bind_eq_some_iff.1 hr
    obtain ⟨u', hu', h⟩ := hstep _ _ _ _ u h ha hu
    obtain ⟨t', ht', h⟩ := ih h hr
    exact ⟨t', by rw [run, if_pos rfl, hu', Option.bind_some, ht'], h⟩

/-- **What a step keeps exactly if it meets a condition.** A run that keeps it is one whose steps
all meet the condition. -/
theorem Reachable.run_iff {P : σ → Prop} {c : σ → α → Bool}
    (hstep : ∀ s a t, M.Reachable s → M.step s a = some t → (P t ↔ P s ∧ c s a = true))
    {s t : σ} (as : List α) (h : M.Reachable s) (hr : M.run (fun _ _ => true) s as = some t) :
    P t ↔ P s ∧ M.run c s as = some t := by
  induction as generalizing s with
  | nil =>
    obtain rfl := Option.some.inj hr
    exact (and_iff_left rfl).symm
  | cons a as ih =>
    rw [Lts.run, if_pos rfl] at hr
    obtain ⟨u, hu, hr⟩ := Option.bind_eq_some_iff.1 hr
    rw [ih (h.next trivial hu) hr, hstep s a u h hu, Lts.run, Option.ite_none_right_eq_some, hu,
      Option.bind_some, and_assoc]

/-- A state with the decidable property `p` is reached if the run of some labels ends in one. -/
theorem exists_reachableVia_of_run {c : σ → α → Bool} (hc : ∀ s a, c s a = true → ok s a) {s : σ}
    (h : M.init s) (as : List α) {p : σ → Bool} (hr : (M.run c s as).any p = true) :
    ∃ t, M.ReachableVia ok t ∧ p t = true := by
  obtain ⟨t, ht, hp⟩ := (Option.any_eq_true _ _).1 hr
  exact ⟨t, ReachableVia.run hc as (.start h) ht, hp⟩

theorem exists_reachable_of_run {s : σ} (h : M.init s) (as : List α) {p : σ → Bool}
    (hr : (M.run (fun _ _ => true) s as).any p = true) : ∃ t, M.Reachable t ∧ p t = true :=
  exists_reachableVia_of_run (fun _ _ _ => trivial) h as hr

end Lts

end Foundations
