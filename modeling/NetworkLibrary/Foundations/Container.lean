import NetworkLibrary.Foundations.Simulation

/-!
# Containers with a late size

A container, used by any number of threads, whose size is not written together with its contents:
an insertion raises it one step later, and a removal lowers it before it looks for an element and is
refused where it was not positive. What lies in between is what such a container is for: the element
that is inserted takes its place at once (`put`), and a removal that has been let in takes the first
element, of which there is one (`removes_le`).
-/

namespace Foundations

/-- The contents, the first to be removed first, and the record of the run. -/
@[ext]
structure Container (T : Type*) where
  items : List T
  size : ℤ
  /-- The arguments of the insertions. -/
  called : List T
  /-- The elements that removals have returned. -/
  returned : List T

namespace Container

variable {T : Type*}

/-- The running functions. -/
inductive Frame (T : Type*)
  | insert (v : T)
  /-- The size is raised at the end of an insertion. -/
  | raise
  /-- The size is lowered and tested at the start of a removal. -/
  | lower
  /-- The removal has been refused, and raises the size again. -/
  | undo
  | remove
  | ret (v : T)

inductive Act (T : Type*)
  | next
  | insert (v : T)
  | remove

def call (c : Container T) : Act T → Option (Container T × List (Frame T))
  | .insert v => some ({ c with called := c.called ++ [v] }, [.insert v])
  | .remove => some (c, [.lower])
  | .next => none

/-- The statements; `put` says where an element goes. -/
def exec (put : List T → T → List T) (c : Container T) :
    Frame T → Option (Container T × List (Frame T))
  | .insert v => some ({ c with items := put c.items v }, [.raise])
  | .raise => some ({ c with size := c.size + 1 }, [])
  | .lower =>
    if c.size ≤ 0 then some ({ c with size := c.size - 1 }, [.undo])
    else some ({ c with size := c.size - 1 }, [.remove])
  | .undo => some ({ c with size := c.size + 1 }, [])
  | .remove =>
    match c.items with
    | [] => none
    | v :: items => some ({ c with items := items }, [.ret v])
  | .ret v => some ({ c with returned := c.returned ++ [v] }, [])

def program (put : List T → T → List T) : Program (Container T) (Frame T) (Act T) :=
  ⟨call, fun c f _ => exec put c f⟩

def empty : Container T := ⟨[], 0, [], []⟩

/-- The runs of an empty container. -/
def system (put : List T → T → List T) : Lts (Threads (Container T) (Frame T)) (ℕ × Act T) :=
  (program put).lts empty

variable {put : List T → T → List T} {c c' : Container T} {f : Frame T} {a : Act T}
  {new : List (Frame T)} {t : Threads (Container T) (Frame T)}
  {ok : Threads (Container T) (Frame T) → ℕ × Act T → Prop}

theorem exec_insert {v : T} (h : { c with items := put c.items v } = c') :
    exec put c (.insert v) = some (c', [.raise]) := by
  rw [← h]
  rfl

/-- A removal takes the first element. -/
theorem exec_remove {v : T} {items : List T} (h : c.items = v :: items)
    (h' : { c with items := items } = c') : exec put c .remove = some (c', [.ret v]) := by
  unfold exec
  rw [h, ← h']

/-! ## What the size leaves out -/

/-- An element that the size does not count yet. -/
def Frame.raises : Frame T → ℕ
  | .raise => 1
  | _ => 0

/-- A removal that has yet to take its subtraction back. -/
def Frame.undoes : Frame T → ℕ
  | .undo => 1
  | _ => 0

/-- A removal that has been let in. -/
def Frame.removes : Frame T → ℕ
  | .remove => 1
  | _ => 0

theorem exec_size (hput : ∀ items v, (put items v).length = items.length + 1)
    (h : exec put c f = some (c', new)) :
    (c'.items.length - c'.size : ℤ) + (f.raises + f.undoes + f.removes : ℕ) =
        c.items.length - c.size + tally (fun f => f.raises + f.undoes + f.removes) new ∧
      (0 ≤ c'.size + tally Frame.undoes new ∨
        c.size + f.undoes ≤ c'.size + tally Frame.undoes new) := by
  revert h
  fun_cases exec put c f <;> intro h <;> cases h
  all_goals simp_all [Frame.raises, Frame.undoes, Frame.removes]
  all_goals omega

theorem call_size (h : call c a = some (c', new)) :
    c'.items = c.items ∧ c'.size = c.size ∧
      tally (fun f => f.raises + f.undoes + f.removes) new = 0 ∧ tally Frame.undoes new = 0 := by
  revert h
  fun_cases call c a <;> intro h <;> cases h
  · exact ⟨rfl, rfl, rfl, rfl⟩
  · exact ⟨rfl, rfl, rfl, rfl⟩

/-- The elements are counted by the size, by the insertions that have yet to raise it, and by the
removals that have lowered it. -/
theorem size_eq (hput : ∀ items v, (put items v).length = items.length + 1)
    (h : (system put).ReachableVia ok t) :
    (t.shared.items.length - t.shared.size : ℤ) =
      (tally Frame.raises t.frames + tally Frame.undoes t.frames +
        tally Frame.removes t.frames : ℕ) := by
  have hcons := Program.conserved (P := program put) (fun c => (c.items.length - c.size : ℤ))
    (fun f => f.raises + f.undoes + f.removes) (fun c a old c' new hf => by
      cases hf with
      | call hc =>
        obtain ⟨hitems, hsize, hnew, -⟩ := call_size hc
        rw [hitems, hsize, hnew, tally_nil]
      | exec he => simpa using (exec_size hput he).1) h
  simpa [empty, tally_add] using hcons

/-- The size is negative only while a removal has yet to take its subtraction back. -/
theorem size_nonneg (hput : ∀ items v, (put items v).length = items.length + 1)
    (h : (system put).ReachableVia ok t) :
    0 ≤ t.shared.size + tally Frame.undoes t.frames := by
  refine h.invariant (I := fun t => (0 : ℤ) ≤ t.shared.size + tally Frame.undoes t.frames) ?_ ?_
  · rintro _ ⟨n, rfl⟩
    simp [empty]
  · rintro s l t ih - hst
    obtain ⟨pre, old, new, post, hs, ht, hf, -⟩ := Program.step_frames hst
    have htally := Program.tally_step (w := Frame.undoes) hs ht
    have hnew : tally Frame.undoes new ≤ tally Frame.undoes t.frames := by
      rw [ht, tally_append, tally_append]
      omega
    cases hf with
    | call hc =>
      obtain ⟨-, hsize, -, hundo⟩ := call_size hc
      rw [tally_nil] at htally
      omega
    | exec he =>
      rw [tally_cons, tally_nil] at htally
      rcases (exec_size hput he).2 with h | h <;> omega

/-- **A removal that has been let in finds an element**: there are not more of them than there are
elements. -/
theorem removes_le (hput : ∀ items v, (put items v).length = items.length + 1)
    (h : (system put).ReachableVia ok t) :
    tally Frame.removes t.frames ≤ t.shared.items.length := by
  have heq := size_eq hput h
  have hnonneg := size_nonneg hput h
  omega

end Container

end Foundations
