import NetworkLibrary.Foundations.Threads

/-!
# Parts of a program

A part of a program is a program of its own: `part` takes its state out of the whole one, `view` its
frames. The frames of a part may stand anywhere in a call stack, among frames of other parts. If
every step of a thread leaves the part as it is or is a step of the part (`Moves`), then the part of
every run is a run of the part (`reachable_part`).
-/

namespace Foundations

namespace Threads

variable {G F G' F' : Type*}

/-- The part of a state. -/
def part (part : G → G') (view : F → Option F') (t : Threads G F) : Threads G' F' :=
  ⟨part t.shared, t.calls.map (List.filterMap view)⟩

theorem frames_part (part : G → G') (view : F → Option F') (t : Threads G F) :
    (t.part part view).frames = t.frames.filterMap view :=
  List.filterMap_flatten.symm

end Threads

namespace Program

variable {G F A G' F' A' : Type*}

/-- A thread takes a step, or none. -/
def Moves (Q : Program G F A) (g : G) (st : List F) (g' : G) (st' : List F) : Prop :=
  g' = g ∧ st' = st ∨ ∃ a, Q.stepStack g st a = some (g', st')

variable {Q : Program G' F' A'} {P : Program G F A}

theorem Moves.stay (g : G') (st : List F') : Q.Moves g st g st := .inl ⟨rfl, rfl⟩

theorem Moves.of_call {g h : G'} {new : List F'} {a : A'} (hc : Q.call g a = some (h, new)) :
    Q.Moves g [] h new :=
  .inr ⟨a, hc⟩

/-- A statement is executed on top of a call stack. -/
theorem Moves.of_exec {g h : G'} {f : F'} {new : List F'} {a : A'}
    (he : Q.exec g f a = some (h, new)) (fs : List F') : Q.Moves g (f :: fs) h (new ++ fs) :=
  .inr ⟨a, by rw [stepStack, he]; rfl⟩

theorem Moves.reachable {g₀ g : G'} {s : Threads G' F'} {i : ℕ} {st st' : List F'}
    (h : (Q.lts g₀).Reachable s) (hst : s.calls[i]? = some st) (hm : Q.Moves s.shared st g st') :
    (Q.lts g₀).Reachable ⟨g, s.calls.set i st'⟩ := by
  rcases hm with ⟨rfl, rfl⟩ | ⟨a, ha⟩
  · obtain ⟨hi, rfl⟩ := List.getElem?_eq_some_iff.1 hst
    rwa [List.set_getElem_self hi]
  · refine h.next (a := (i, a)) trivial ?_
    show Q.step s (i, a) = _
    rw [step, hst, Option.bind_some, ha]
    rfl

/-- **Facts about every call stack.** -/
theorem forall_calls_step {I : List F → Prop} {s t : Threads G F} {l : ℕ × A}
    (h : P.step s l = some t) (hs : ∀ st ∈ s.calls, I st)
    (hstep : ∀ st ∈ s.calls, ∀ g st', P.stepStack s.shared st l.2 = some (g, st') → I st → I st') :
    ∀ st ∈ t.calls, I st := by
  obtain ⟨st, hi, h⟩ := Option.bind_eq_some_iff.1 h
  obtain ⟨⟨g, st'⟩, hr, rfl⟩ := Option.map_eq_some_iff.1 h
  have hmem := List.mem_of_getElem? hi
  intro r hr'
  rcases List.mem_or_eq_of_mem_set hr' with hr' | rfl
  · exact hs r hr'
  · exact hstep st hmem g _ hr (hs st hmem)

variable {g₀ : G} {ok : Threads G F → ℕ × A → Prop} {part : G → G'} {view : F → Option F'}

/-- **The part of a run is a run of the part.** -/
theorem reachable_part {J : Threads G F → Prop}
    (hJ : ∀ {t}, (P.lts g₀).ReachableVia ok t → J t)
    (hstep : ∀ {t : Threads G F} {st st' : List F} {a : A} {g : G}, J t → st ∈ t.calls →
      P.stepStack t.shared st a = some (g, st') →
        Q.Moves (part t.shared) (st.filterMap view) (part g) (st'.filterMap view))
    {t : Threads G F} (h : (P.lts g₀).ReachableVia ok t) :
    (Q.lts (part g₀)).Reachable (t.part part view) := by
  refine h.invariant₂ (I := fun t => (Q.lts (part g₀)).Reachable (t.part part view)) hJ ?_ ?_
  · rintro _ ⟨n, rfl⟩
    exact .start ⟨n, by simp [Threads.part, Threads.idle]⟩
  · intro s l t hs _ ih _ hst
    obtain ⟨st, hi, hst⟩ := Option.bind_eq_some_iff.1 hst
    obtain ⟨⟨g, st'⟩, hr, rfl⟩ := Option.map_eq_some_iff.1 hst
    have hmove := hstep hs (List.mem_of_getElem? hi) hr
    have hi' : (s.part part view).calls[l.1]? = some (st.filterMap view) := by
      rw [Threads.part, List.getElem?_map, hi]
      rfl
    have := Moves.reachable ih hi' hmove
    rwa [Threads.part, ← List.map_set] at this

end Program

end Foundations
