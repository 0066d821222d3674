import NetworkLibrary.Foundations.Threads

/-!
# Simulations between programs with threads

A program simulates another one if every statement of the second is some statements of the first,
executed by one thread. The frames that matter to the first program are the images under `view` of
those of the second; only the function on top of a call stack has one, its callers wait
(`Simulates`, where `sound` is what is known of every frame). Then every run of the second program
is one of the first (`Simulates.reachable`).

Where the second program does the work of the first in smaller steps, the first is what is seen of
it (`Refines`, `Refines.reachable`).
-/

namespace Foundations

namespace Program

variable {G F A G' F' A' : Type*}

/-- The steps of one thread. -/
def runStack (Q : Program G F A) : G → List F → List A → Option (G × List F)
  | g, st, [] => some (g, st)
  | g, st, a :: as => (Q.stepStack g st a).bind fun r => Q.runStack r.1 r.2 as

theorem runStack_call {Q : Program G F A} {g g' : G} {st : List F} {a : A} (as : List A)
    (h : Q.call g a = some (g', st)) : Q.runStack g [] (a :: as) = Q.runStack g' st as := by
  rw [runStack, stepStack, h]
  rfl

theorem runStack_exec {Q : Program G F A} {g g' : G} {f : F} {fs new : List F} {a : A} (as : List A)
    (h : Q.exec g f a = some (g', new)) :
    Q.runStack g (f :: fs) (a :: as) = Q.runStack g' (new ++ fs) as := by
  rw [runStack, stepStack, h]
  rfl

theorem step_set {Q : Program G F A} {s : Threads G F} {i : ℕ} {st st' : List F} {g : G} {a : A}
    (hst : s.calls[i]? = some st) (h : Q.stepStack s.shared st a = some (g, st')) :
    Q.step s (i, a) = some ⟨g, s.calls.set i st'⟩ := by
  rw [step, hst, Option.bind_some, h]
  rfl

theorem set_eq_of_getElem? {α : Type*} {l : List α} {i : ℕ} {x : α} (h : l[i]? = some x) :
    l.set i x = l := by
  obtain ⟨hi, rfl⟩ := List.getElem?_eq_some_iff.1 h
  exact List.set_getElem_self hi

/-- A thread takes some steps while the others wait. -/
theorem reachable_runStack {Q : Program G F A} {g₀ : G} {s : Threads G F} {i : ℕ} {st st' : List F}
    {g : G} {as : List A} (h : (Q.lts g₀).Reachable s) (hst : s.calls[i]? = some st)
    (hr : Q.runStack s.shared st as = some (g, st')) :
    (Q.lts g₀).Reachable ⟨g, s.calls.set i st'⟩ := by
  have hi := (List.getElem?_eq_some_iff.1 hst).1
  induction as generalizing s st with
  | nil =>
    obtain ⟨rfl, rfl⟩ := Prod.mk.inj (Option.some.inj hr)
    rwa [set_eq_of_getElem? hst]
  | cons a as ih =>
    obtain ⟨⟨g₁, st₁⟩, h₁, hr⟩ := Option.bind_eq_some_iff.1 hr
    have hnext := h.next trivial (step_set hst h₁)
    have := ih hnext (List.getElem?_set_self hi) hr (by rwa [List.length_set])
    rwa [List.set_set] at this

/-- One program simulates another. -/
structure Simulates (Q : Program G' F' A') (P : Program G F A) (same : G → G' → Prop)
    (view : F → Option F') (sound : F → Prop) : Prop where
  call : ∀ {g h g' a new}, same g g' → P.call g a = some (h, new) →
    ∃ as h', Q.runStack g' [] as = some (h', new.filterMap view) ∧ same h h' ∧
      (∀ f ∈ new.tail, view f = none) ∧ ∀ f ∈ new, sound f
  exec : ∀ {g h g' f a new}, same g g' → sound f → P.exec g f a = some (h, new) →
    ∃ as h', Q.runStack g' (view f).toList as = some (h', new.filterMap view) ∧ same h h' ∧
      (∀ f ∈ new.tail, view f = none) ∧ ∀ f ∈ new, sound f

variable {Q : Program G' F' A'} {P : Program G F A} {same : G → G' → Prop} {view : F → Option F'}
  {sound : F → Prop}

/-- **Every run is a run of the program that simulates it.** That program may have threads of its
own, which are idle. -/
theorem Simulates.reachable (hsim : Simulates Q P same view sound) {g₀ : G} {g₀' : G'}
    {extra : List (List F')}
    (h₀ : ∀ n, ∃ s, (Q.lts g₀').Reachable s ∧ s.calls = List.replicate n [] ++ extra ∧
      same g₀ s.shared)
    {t : Threads G F} (h : (P.lts g₀).Reachable t) :
    ∃ s, (Q.lts g₀').Reachable s ∧ s.calls = t.calls.map (List.filterMap view) ++ extra ∧
      same t.shared s.shared := by
  have hinv := h.invariant (I := fun t => (∃ s, (Q.lts g₀').Reachable s ∧
    s.calls = t.calls.map (List.filterMap view) ++ extra ∧ same t.shared s.shared) ∧
    ∀ st ∈ t.calls, (∀ f ∈ st.tail, view f = none) ∧ ∀ f ∈ st, sound f) ?_ ?_
  · exact hinv.1
  · rintro _ ⟨n, rfl⟩
    obtain ⟨s, hs, hcalls, hsame⟩ := h₀ n
    refine ⟨⟨s, hs, ?_, hsame⟩, fun st hst => ?_⟩
    · rw [hcalls, Threads.idle, List.map_replicate, List.filterMap_nil]
    · rw [List.eq_of_mem_replicate hst]
      simp
  · rintro t ⟨i, a⟩ u ⟨⟨s, hs, hcalls, hsame⟩, htail⟩ - hst
    obtain ⟨st, hget, hmap⟩ := Option.bind_eq_some_iff.1 hst
    obtain ⟨⟨g, st'⟩, hstep, rfl⟩ := Option.map_eq_some_iff.1 hmap
    have hi := (List.getElem?_eq_some_iff.1 hget).1
    have hgets : s.calls[i]? = some (st.filterMap view) := by
      rw [hcalls, List.getElem?_append_left (by simpa using hi), List.getElem?_map, hget]
      rfl
    have key : ∃ as h', Q.runStack s.shared (st.filterMap view) as =
        some (h', st'.filterMap view) ∧ same g h' ∧ (∀ f ∈ st'.tail, view f = none) ∧
        ∀ f ∈ st', sound f := by
      cases st with
      | nil => exact hsim.call hsame hstep
      | cons f fs =>
        obtain ⟨⟨g', new⟩, he, heq⟩ := Option.map_eq_some_iff.1 hstep
        obtain ⟨rfl, rfl⟩ := Prod.mk.inj heq
        obtain ⟨hfs, hsound⟩ := htail _ (List.mem_of_getElem? hget)
        have hfs : ∀ f ∈ fs, view f = none := hfs
        obtain ⟨as, h', hrun, hsame', hnew, hsnew⟩ := hsim.exec hsame (hsound f (by simp)) he
        have hnil : fs.filterMap view = [] := List.filterMap_eq_nil_iff.2 hfs
        have hhead : (f :: fs).filterMap view = (view f).toList := by
          cases hv : view f <;> simp [hv, hnil]
        refine ⟨as, h', ?_, hsame', fun x hx => ?_, fun x hx => ?_⟩
        · rw [hhead, List.filterMap_append, hnil, List.append_nil]
          exact hrun
        · cases new with
          | nil => exact hfs x (List.mem_of_mem_tail hx)
          | cons y new =>
            rcases List.mem_append.1 hx with hx | hx
            · exact hnew x hx
            · exact hfs x hx
        · exact (List.mem_append.1 hx).elim (hsnew x) fun hx => hsound x (by simp [hx])
    obtain ⟨as, h', hrun, hsame', htail'⟩ := key
    refine ⟨⟨_, reachable_runStack hs hgets hrun, ?_, hsame'⟩, fun fs hfs => ?_⟩
    · show s.calls.set i _ = _
      rw [hcalls, List.set_append_left _ _ (by simpa using hi), List.map_set]
    · rcases List.mem_or_eq_of_mem_set hfs with hfs | rfl
      · exact htail fs hfs
      · exact htail'

/-! ## Refinements

Here the program that does the work is seen through a function, step by step: what is known of its
shared states may be used before and after a step. -/

/-- Seen through `abs` and `view`, every step of the program `P` is a step of `Q` or none. -/
structure Refines (Q : Program G' F' A') (P : Program G F A) (abs : G → G') (view : F → Option F')
    (inv : G → Prop) : Prop where
  call : ∀ {g h a new}, inv g → inv h → P.call g a = some (h, new) →
    ∃ a', Q.call (abs g) a' = some (abs h, new.filterMap view)
  exec : ∀ {g h f a new}, inv g → inv h → P.exec g f a = some (h, new) →
    (abs h = abs g ∧ new.filterMap view = (view f).toList) ∨
      ∃ f' a', view f = some f' ∧ Q.exec (abs g) f' a' = some (abs h, new.filterMap view)

/-- **What is seen of a run is a run**, as long as it stays within bounds that it does not come back
to. -/
theorem Refines.reachable {abs : G → G'} {inv : G → Prop} (href : Refines Q P abs view inv)
    (within : G → Prop) {g₀ : G} {ok : Threads G F → ℕ × A → Prop}
    (hinv : ∀ {t}, (P.lts g₀).ReachableVia ok t → within t.shared → inv t.shared)
    (hwithin : ∀ {t l u}, P.step t l = some u → within u.shared → within t.shared)
    {t : Threads G F} (h : (P.lts g₀).ReachableVia ok t) (ht : within t.shared) :
    (Q.lts (abs g₀)).Reachable ⟨abs t.shared, t.calls.map (List.filterMap view)⟩ := by
  refine h.invariant₂ (J := fun t => (P.lts g₀).ReachableVia ok t)
    (I := fun t => within t.shared →
      (Q.lts (abs g₀)).Reachable ⟨abs t.shared, t.calls.map (List.filterMap view)⟩)
    id ?_ ?_ ht
  · rintro _ ⟨n, rfl⟩ -
    refine .start ⟨n, ?_⟩
    rw [Threads.idle, Threads.idle, List.map_replicate, List.filterMap_nil]
  · rintro s ⟨i, a⟩ u hs hu ih - hst hwu
    have hws := hwithin hst hwu
    have ih := ih hws
    obtain ⟨st, hget, hmap⟩ := Option.bind_eq_some_iff.1 hst
    obtain ⟨⟨h, st'⟩, hstep, rfl⟩ := Option.map_eq_some_iff.1 hmap
    have hget' : (s.calls.map (List.filterMap view))[i]? = some (st.filterMap view) := by
      rw [List.getElem?_map, hget]
      rfl
    rw [List.map_set]
    cases st with
    | nil =>
      obtain ⟨a', hcall⟩ := href.call (hinv hs hws) (hinv hu hwu) hstep
      exact ih.next trivial (step_set hget' hcall)
    | cons f fs =>
      obtain ⟨⟨h', new⟩, hexec, heq⟩ := Option.map_eq_some_iff.1 hstep
      obtain ⟨rfl, rfl⟩ := Prod.mk.inj heq
      rcases href.exec (hinv hs hws) (hinv hu hwu) hexec with ⟨habs, hnew⟩ | ⟨f', a', hf, hexec'⟩
      · have hsame : (new ++ fs).filterMap view = (f :: fs).filterMap view := by
          rw [List.filterMap_append, hnew, List.filterMap_cons]
          cases view f <;> rfl
        rw [hsame, set_eq_of_getElem? hget']
        show (Q.lts (abs g₀)).Reachable ⟨abs h', _⟩
        rwa [habs]
      · have hstack : Q.stepStack (abs s.shared) ((f :: fs).filterMap view) a' =
            some (abs h', (new ++ fs).filterMap view) := by
          rw [List.filterMap_cons, hf, List.filterMap_append]
          exact congrArg (Option.map fun r => (r.1, r.2 ++ fs.filterMap view)) hexec'
        exact ih.next trivial (step_set hget' hstack)

end Program

end Foundations
