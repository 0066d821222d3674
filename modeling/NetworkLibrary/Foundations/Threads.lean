import NetworkLibrary.Foundations.Transition
import Mathlib.Algebra.BigOperators.Group.List.Basic
import Mathlib.Algebra.GroupWithZero.Nat
import Mathlib.Tactic.Common

/-!
# Threads with call stacks

Any number of threads run the functions of one program over a shared state. The local state of
a thread is its call stack; a frame is one running function, with its local variables and the
statement it is about to execute. One step executes one statement of the function on top of one
thread's stack, or starts a call on a thread whose stack is empty.

The invariants of such programs are of two kinds: facts about every frame, and equations between
shared counters and the number of frames at certain statements. For both, `step_frames` gives the
frames after a step as the frames before it with the running frame replaced, and `tally` sums a
weight over all frames.
-/

namespace Foundations

/-! ## Sums over frames -/

section Tally

variable {F : Type*}

/-- The sum of a weight over a list of frames. -/
def tally (w : F → ℕ) (l : List F) : ℕ := (l.map w).sum

variable (w : F → ℕ)

@[simp] theorem tally_nil : tally w [] = 0 := rfl

@[simp] theorem tally_cons (f : F) (l : List F) : tally w (f :: l) = w f + tally w l := by
  simp [tally]

@[simp] theorem tally_append (l₁ l₂ : List F) : tally w (l₁ ++ l₂) = tally w l₁ + tally w l₂ := by
  simp [tally]

variable {w}

theorem le_tally_of_mem {f : F} {l : List F} (h : f ∈ l) : w f ≤ tally w l := by
  induction l with
  | nil => cases h
  | cons a l ih =>
    rw [tally_cons]
    rcases List.mem_cons.1 h with rfl | h
    · omega
    · have := ih h; omega

theorem tally_eq_zero {l : List F} : tally w l = 0 ↔ ∀ f ∈ l, w f = 0 := by
  induction l with
  | nil => simp
  | cons a l ih => simp [ih]

theorem exists_of_tally_pos {l : List F} (h : 0 < tally w l) : ∃ f ∈ l, 0 < w f := by
  by_contra hn
  have := tally_eq_zero.2 fun f hf => Nat.eq_zero_of_not_pos fun hpos => hn ⟨f, hf, hpos⟩
  omega

theorem tally_mono {v : F → ℕ} {l : List F} (h : ∀ f ∈ l, w f ≤ v f) : tally w l ≤ tally v l := by
  induction l with
  | nil => simp
  | cons a l ih =>
    have h₁ := h a (by simp)
    have h₂ := ih fun f hf => h f (by simp [hf])
    simp only [tally_cons]
    omega

theorem tally_add (v w : F → ℕ) (l : List F) :
    tally (fun f => v f + w f) l = tally v l + tally w l := by
  induction l with
  | nil => rfl
  | cons a l ih =>
    simp only [tally_cons, ih]
    omega

end Tally

/-! ## The interleaving of the threads -/

/-- A shared state and the call stacks of the threads. -/
structure Threads (G F : Type*) where
  /-- The shared state. -/
  shared : G
  /-- The call stacks, top first. -/
  calls : List (List F)

namespace Threads

variable {G F : Type*}

/-- The frames of all threads. -/
def frames (s : Threads G F) : List F := s.calls.flatten

/-- The function a thread is executing. -/
def top (s : Threads G F) (i : ℕ) : Option F := (s.calls[i]?).bind List.head?

theorem mem_of_top {s : Threads G F} {i : ℕ} {f : F} (h : s.top i = some f) : f ∈ s.frames := by
  obtain ⟨st, hst, hf⟩ := Option.bind_eq_some_iff.1 h
  exact List.mem_flatten.2 ⟨st, List.mem_of_getElem? hst, List.mem_of_head? hf⟩

/-- No call is running. -/
def Quiet (s : Threads G F) : Prop := s.frames = []

instance (s : Threads G F) : Decidable s.Quiet :=
  decidable_of_iff (s.frames.isEmpty = true) List.isEmpty_iff

/-- `n` threads, none of which is running a call. -/
def idle (g : G) (n : ℕ) : Threads G F := ⟨g, List.replicate n []⟩

@[simp] theorem shared_idle (g : G) (n : ℕ) : (idle g n : Threads G F).shared = g := rfl

@[simp] theorem frames_idle (g : G) (n : ℕ) : (idle g n : Threads G F).frames = [] := by
  simp [idle, frames]

end Threads

/-- A program, as the statements of its functions. -/
structure Program (G F A : Type*) where
  /-- A call made by an idle thread: the shared state after it and the frames it starts. -/
  call : G → A → Option (G × List F)
  /-- One statement of a frame: the shared state after it and the frames that replace it (none
  when the function returns, two when it calls another). -/
  exec : G → F → A → Option (G × List F)

namespace Program

variable {G F A : Type*} (P : Program G F A)

/-- One step of a thread with a given call stack. -/
def stepStack (g : G) : List F → A → Option (G × List F)
  | [], a => P.call g a
  | f :: fs, a => (P.exec g f a).map fun r => (r.1, r.2 ++ fs)

/-- One step of the thread with a given index. -/
def step (s : Threads G F) (l : ℕ × A) : Option (Threads G F) :=
  (s.calls[l.1]?).bind fun st =>
    (P.stepStack s.shared st l.2).map fun r => ⟨r.1, s.calls.set l.1 r.2⟩

/-- The transition system of a program from a shared state, with any number of threads. -/
def lts (g₀ : G) : Lts (Threads G F) (ℕ × A) where
  init s := ∃ n, s = Threads.idle g₀ n
  step := P.step

/-- A condition on the statements a run executes, as a condition on its steps. -/
def Steps (ok : Threads G F → F → A → Prop) (s : Threads G F) (l : ℕ × A) : Prop :=
  ∀ f, s.top l.1 = some f → ok s f l.2

/-- What a step does to the shared state and to one frame (or to none, when a call starts). -/
inductive Fires (g : G) (a : A) : List F → G → List F → Prop
  | call {g' : G} {new : List F} : P.call g a = some (g', new) → Fires g a [] g' new
  | exec {f : F} {g' : G} {new : List F} : P.exec g f a = some (g', new) → Fires g a [f] g' new

variable {P}

/-- **The frames after a step** are the frames before it with the running frame replaced. -/
theorem step_frames {s t : Threads G F} {l : ℕ × A} (h : P.step s l = some t) :
    ∃ pre old new post, s.frames = pre ++ old ++ post ∧ t.frames = pre ++ new ++ post ∧
      P.Fires s.shared l.2 old t.shared new ∧ ∀ f, old = [f] → s.top l.1 = some f := by
  obtain ⟨st, hst, h⟩ := Option.bind_eq_some_iff.1 h
  obtain ⟨⟨g', st'⟩, hr, rfl⟩ := Option.map_eq_some_iff.1 h
  obtain ⟨hi, hget⟩ := List.getElem?_eq_some_iff.1 hst
  set L := s.calls.take l.1
  set R := s.calls.drop (l.1 + 1)
  have hs : s.calls = L ++ st :: R := by
    rw [← hget, List.cons_getElem_drop_succ, List.take_append_drop]
  have ht : s.calls.set l.1 st' = L ++ st' :: R := List.set_eq_take_cons_drop st' hi
  have hfs : s.frames = L.flatten ++ (st ++ R.flatten) := by
    rw [Threads.frames, hs]; simp
  have hft : (⟨g', s.calls.set l.1 st'⟩ : Threads G F).frames = L.flatten ++ (st' ++ R.flatten) := by
    rw [Threads.frames, ht]; simp
  cases st with
  | nil =>
    refine ⟨L.flatten, [], st', R.flatten, by simpa using hfs, by simpa using hft, .call hr, ?_⟩
    simp
  | cons f fs =>
    obtain ⟨⟨g'', new⟩, hx, he⟩ := Option.map_eq_some_iff.1 hr
    obtain ⟨rfl, rfl⟩ := Prod.mk.inj he
    refine ⟨L.flatten, [f], new, fs ++ R.flatten, by simpa using hfs, by simpa using hft,
      .exec hx, ?_⟩
    rintro f' h
    obtain rfl : f = f' := by simpa using h
    simp [Threads.top, hst]

/-- A statement executed on top of the call stack of a thread. -/
theorem step_top {s : Threads G F} {i : ℕ} {f : F} {fs new : List F} {g' : G} {a : A}
    (hs : s.calls[i]? = some (f :: fs)) (he : P.exec s.shared f a = some (g', new)) :
    ∃ t, P.step s (i, a) = some t ∧ t.shared = g' ∧ t.calls[i]? = some (new ++ fs) := by
  refine ⟨⟨g', s.calls.set i (new ++ fs)⟩, ?_, rfl, ?_⟩
  · rw [step, hs]
    simp [stepStack, he]
  · exact List.getElem?_set_self (List.getElem?_eq_some_iff.1 hs).1

/-- The step of a thread that executes a statement. -/
theorem step_stack {s t : Threads G F} {i : ℕ} {f : F} {fs : List F} {a : A}
    (hs : s.calls[i]? = some (f :: fs)) (h : P.step s (i, a) = some t) :
    ∃ new, P.exec s.shared f a = some (t.shared, new) ∧ t.calls[i]? = some (new ++ fs) := by
  simp only [step, hs, Option.bind_some] at h
  obtain ⟨r, hr, rfl⟩ := Option.map_eq_some_iff.1 h
  obtain ⟨r, he, rfl⟩ := Option.map_eq_some_iff.1 hr
  exact ⟨r.2, he, List.getElem?_set_self (List.getElem?_eq_some_iff.1 hs).1⟩

/-- The step of an idle thread. -/
theorem step_idle {s t : Threads G F} {i : ℕ} {a : A} (hs : s.calls[i]? = some [])
    (h : P.step s (i, a) = some t) :
    ∃ new, P.call s.shared a = some (t.shared, new) ∧ t.calls[i]? = some new := by
  simp only [step, hs, Option.bind_some] at h
  obtain ⟨r, hr, rfl⟩ := Option.map_eq_some_iff.1 h
  exact ⟨r.2, hr, List.getElem?_set_self (List.getElem?_eq_some_iff.1 hs).1⟩

/-- The other threads are where they were. -/
theorem step_calls_ne {s t : Threads G F} {i j : ℕ} {a : A} (h : P.step s (i, a) = some t)
    (hj : j ≠ i) : t.calls[j]? = s.calls[j]? := by
  obtain ⟨st, -, h⟩ := Option.bind_eq_some_iff.1 h
  obtain ⟨r, -, rfl⟩ := Option.map_eq_some_iff.1 h
  exact List.getElem?_set_ne hj.symm

theorem mem_frames_of_top {s : Threads G F} {i : ℕ} {f : F} {fs : List F}
    (hs : s.calls[i]? = some (f :: fs)) : f ∈ s.frames :=
  List.mem_flatten.2 ⟨f :: fs, List.mem_of_getElem? hs, by simp⟩

/-- A weight over the frames changes by what the running function does to its own frame. -/
theorem tally_step {w : F → ℕ} {pre old new post fs ft : List F} (hs : fs = pre ++ old ++ post)
    (ht : ft = pre ++ new ++ post) : tally w ft + tally w old = tally w fs + tally w new := by
  subst hs ht
  simp only [tally_append]
  omega

variable {g₀ : G} {ok : Threads G F → ℕ × A → Prop}

/-- **Conservation.** If every statement changes `φ` of the shared state by as much as it changes
the weight of its own frames, the two differ by a constant along every run. -/
theorem conserved (φ : G → ℤ) (w : F → ℕ)
    (hφ : ∀ g a old g' new, P.Fires g a old g' new → φ g' + tally w old = φ g + tally w new)
    {s : Threads G F} (h : (P.lts g₀).ReachableVia ok s) :
    φ s.shared = φ g₀ + tally w s.frames := by
  refine h.invariant (I := fun s => φ s.shared = φ g₀ + tally w s.frames) ?_ ?_
  · rintro _ ⟨n, rfl⟩
    simp
  · intro s a t ih _ hst
    obtain ⟨pre, old, new, post, hs, ht, hf, -⟩ := step_frames hst
    have h₁ := hφ _ _ _ _ _ hf
    have h₂ := tally_step (w := w) hs ht
    omega

/-- **Facts about every frame.** The running function establishes the fact for the frames that
replace its own, and keeps it for every other frame. -/
theorem forall_frames_step {Q Q' : F → Prop} {pre old new post fs ft : List F}
    (hs : fs = pre ++ old ++ post) (ht : ft = pre ++ new ++ post) (hQ : ∀ f ∈ fs, Q f)
    (hnew : ∀ f ∈ new, Q' f) (hrest : ∀ f ∈ pre ++ post, Q f → Q' f) : ∀ f ∈ ft, Q' f := by
  subst hs ht
  intro f hf
  simp only [List.mem_append] at hf hQ hrest
  rcases hf with (h | h) | h
  · exact hrest f (.inl h) (hQ f (.inl (.inl h)))
  · exact hnew f h
  · exact hrest f (.inr h) (hQ f (.inr h))

/-- A weight of the running frame and of another one are both counted. -/
theorem add_le_tally {w : F → ℕ} {pre old post fs : List F} (hs : fs = pre ++ old ++ post) {f : F}
    (hf : f ∈ pre ++ post) : tally w old + w f ≤ tally w fs := by
  subst hs
  have := le_tally_of_mem (w := w) hf
  simp only [tally_append] at this ⊢
  omega

end Program

end Foundations
