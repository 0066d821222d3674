import NetworkLibrary.Foundations.Tags
import NetworkLibrary.Stack.LockFreeStack
import Mathlib.Data.List.Count
import Mathlib.Tactic.Linarith

/-!
# The accounts of `LockFreeStack`

What holds in every run, whatever becomes of the chain: the values on the stack by the history are
counted by `Size` and the running calls (`size_eq`), every value of a call of `Push` is pushed once,
every value popped returned once (`called_count`, `popped_count`), and a word of `Top` that is not
null never comes back as long as no tag is drawn twice (`tags`).
-/

namespace NetworkLibrary.LockFreeStack

open Foundations

variable {T : Type*}

/-! ## Histories -/

/-- The values pushed. -/
def pushes (h : List (Op T)) : List T := h.filterMap fun
  | .push v => some v
  | .pop _ => none

/-- The values popped. -/
def pops (h : List (Op T)) : List T := h.filterMap fun
  | .push _ => none
  | .pop v => some v

@[simp] theorem pushes_append (h h' : List (Op T)) : pushes (h ++ h') = pushes h ++ pushes h' :=
  List.filterMap_append ..

@[simp] theorem pops_append (h h' : List (Op T)) : pops (h ++ h') = pops h ++ pops h' :=
  List.filterMap_append ..

@[simp] theorem pushes_nil : pushes ([] : List (Op T)) = [] := rfl

@[simp] theorem pops_nil : pops ([] : List (Op T)) = [] := rfl

@[simp] theorem pushes_push (v : T) : pushes [.push v] = [v] := rfl

@[simp] theorem pushes_pop (v : T) : pushes [.pop v] = [] := rfl

@[simp] theorem pops_push (v : T) : pops [.push v] = [] := rfl

@[simp] theorem pops_pop (v : T) : pops [.pop v] = [v] := rfl

/-- A legal history of a stack, and the values on the stack after it, the top first. -/
inductive Lifo : List (Op T) → List T → Prop
  | nil : Lifo [] []
  | push {h : List (Op T)} {l : List T} {v : T} : Lifo h l → Lifo (h ++ [.push v]) (v :: l)
  | pop {h : List (Op T)} {l : List T} {v : T} : Lifo h (v :: l) → Lifo (h ++ [.pop v]) l

/-- What was pushed was popped or is on the stack. -/
theorem Lifo.perm {h : List (Op T)} {l : List T} (hl : Lifo h l) :
    (pushes h).Perm (pops h ++ l) := by
  induction hl with
  | nil => exact .refl _
  | push _ ih =>
    rw [pushes_append, pops_append, pushes_push, pops_push, List.append_nil]
    exact (List.perm_append_comm.trans (ih.cons _)).trans List.perm_middle.symm
  | pop _ ih =>
    rw [pushes_append, pops_append, pushes_pop, pops_pop, List.append_nil, List.append_assoc]
    exact ih

theorem Lifo.length {h : List (Op T)} {l : List T} (hl : Lifo h l) :
    (pushes h).length = (pops h).length + l.length := by
  rw [hl.perm.length_eq, List.length_append]

/-! ## Size -/

/-- A pushed value that `Size` does not count yet. -/
def Frame.unsized : Frame T → ℕ
  | .incSize => 1
  | _ => 0

/-- A `Pop` that `Size` has let into the loop. -/
def Frame.loops : Frame T → ℕ
  | .readOld _ | .readNext _ _ | .casPop _ _ => 1
  | _ => 0

/-- A `Pop` that has yet to take back its subtraction. -/
def Frame.undoes : Frame T → ℕ
  | .undoSize => 1
  | _ => 0

/-- The value of a `Push` that has not linked its node. -/
def Frame.brings : Frame T → Option T
  | .alloc v | .tagPush v _ | .setData v _ | .readTop v _ | .setNext v _ _ | .casPush v _ _ => some v
  | _ => none

/-- The value that a `Pop` has taken off and not returned yet. -/
def Frame.returns : Frame T → Option T
  | .readData _ v | .free _ v _ | .ret v _ => some v
  | _ => none

variable {s s' : Stack T} {f : Frame T} {a : Act T} {new : List (Frame T)} {data : ℕ → T}
  {next : ℕ → ℕ}

/-- A statement that dereferences `nullptr` changes no account. -/
theorem exec_cases (h : exec s f a = some (s', new)) :
    stmt s f a = some (s', new) ∨ s' = { s with fault := true } ∧ new = [f] := by
  rw [exec] at h
  split at h
  · cases h
    exact .inr ⟨rfl, rfl⟩
  · exact .inl h

theorem exec_size (h : exec s f a = some (s', new)) :
    ((pushes s'.history).length - (pops s'.history).length - s'.size : ℤ) +
          (f.unsized + f.loops + f.undoes : ℕ) =
        (pushes s.history).length - (pops s.history).length - s.size +
          tally (fun f => f.unsized + f.loops + f.undoes) new ∧
      (0 ≤ s'.size + tally Frame.undoes new ∨
        s.size + f.undoes ≤ s'.size + tally Frame.undoes new) := by
  rcases exec_cases h with h | ⟨rfl, rfl⟩
  · revert h
    fun_cases stmt s f a <;> intro h <;> cases h
    all_goals simp only [tally_cons, tally_nil]
    all_goals simp [Frame.unsized, Frame.loops, Frame.undoes, Stack.draw]
    all_goals omega
  · simp

theorem call_accounts (h : call s a = some (s', new)) :
    (new = [.tagPop] ∧ s' = s) ∨
      ∃ v, new = [.alloc v] ∧ s' = { s with called := s.called ++ [v] } := by
  revert h
  fun_cases call s a <;> intro h <;> cases h <;> simp

variable {ok : Threads (Stack T) (Frame T) → ℕ × Act T → Prop} {t : Threads (Stack T) (Frame T)}

/-- The values on the stack are counted by `Size`, by the `Push`es that have yet to raise it, and by
the `Pop`s that have lowered it. -/
theorem size_eq (h : (system data next).ReachableVia ok t) :
    ((pushes t.shared.history).length - (pops t.shared.history).length - t.shared.size : ℤ) =
      (tally Frame.unsized t.frames + tally Frame.loops t.frames +
        tally Frame.undoes t.frames : ℕ) := by
  have := Program.conserved (P := program)
    (fun s => (pushes s.history).length - (pops s.history).length - s.size)
    (fun f => f.unsized + f.loops + f.undoes) (fun s a old s' new hf => by
      cases hf with
      | call hc =>
        rcases call_accounts hc with ⟨rfl, rfl⟩ | ⟨v, rfl, rfl⟩ <;>
          simp [Frame.unsized, Frame.loops, Frame.undoes]
      | exec he => simpa using (exec_size he).1) h
  simpa [initStack, tally_add] using this

/-- `Size` is negative only while a `Pop` has yet to take back its subtraction. -/
theorem size_nonneg (h : (system data next).ReachableVia ok t) :
    0 ≤ t.shared.size + tally Frame.undoes t.frames := by
  refine h.invariant (I := fun t => (0 : ℤ) ≤ t.shared.size + tally Frame.undoes t.frames) ?_ ?_
  · rintro _ ⟨n, rfl⟩
    simp [initStack]
  · rintro s l t ih - hst
    obtain ⟨pre, old, new, post, hs, ht, hf, -⟩ := Program.step_frames hst
    have htally := Program.tally_step (w := Frame.undoes) hs ht
    have hnew : tally Frame.undoes new ≤ tally Frame.undoes t.frames := by
      rw [ht, tally_append, tally_append]
      omega
    cases hf with
    | call hc =>
      have hsize : t.shared.size = s.shared.size := by
        rcases call_accounts hc with ⟨-, h⟩ | ⟨v, -, h⟩ <;> rw [h]
      rw [tally_nil] at htally
      omega
    | exec he =>
      rw [tally_cons, tally_nil] at htally
      rcases (exec_size he).2 with h | h <;> omega

/-! ## Values -/

section Values

variable [DecidableEq T]

theorem exec_values (v : T) (h : exec s f a = some (s', new)) :
    s'.called = s.called ∧
      (pushes s'.history).count v + tally (fun f => if f.brings = some v then 1 else 0) new =
        (pushes s.history).count v + (if f.brings = some v then 1 else 0) ∧
      (s'.returned.map Prod.fst).count v + (pops s.history).count v +
          tally (fun f => if f.returns = some v then 1 else 0) new =
        (s.returned.map Prod.fst).count v + (pops s'.history).count v +
          (if f.returns = some v then 1 else 0) := by
  rcases exec_cases h with h | ⟨rfl, rfl⟩
  · revert h
    fun_cases stmt s f a <;> intro h <;> cases h
    all_goals simp only [tally_cons, tally_nil]
    all_goals simp [Frame.brings, Frame.returns, List.count_singleton, Stack.draw]
    all_goals omega
  · simp

/-- A value is pushed as often as calls of `Push` brought it, less those still running. -/
theorem called_count (h : (system data next).ReachableVia ok t) (v : T) :
    t.shared.called.count v = (pushes t.shared.history).count v +
      tally (fun f => if f.brings = some v then 1 else 0) t.frames := by
  have := Program.conserved (P := program)
    (fun s => (s.called.count v : ℤ) - (pushes s.history).count v)
    (fun f => if f.brings = some v then 1 else 0) (fun s a old s' new hf => by
      cases hf with
      | call hc =>
        rcases call_accounts hc with ⟨rfl, rfl⟩ | ⟨w, rfl, rfl⟩ <;>
          simp [Frame.brings, List.count_singleton]
        omega
      | exec he =>
        obtain ⟨h₁, h₂, -⟩ := exec_values v he
        simp only [h₁, tally_cons, tally_nil]
        omega) h
  simp only [initStack, List.count_nil, pushes_nil] at this
  omega

/-- A value is popped as often as it was returned or is about to be returned. -/
theorem popped_count (h : (system data next).ReachableVia ok t) (v : T) :
    (pops t.shared.history).count v = (t.shared.returned.map Prod.fst).count v +
      tally (fun f => if f.returns = some v then 1 else 0) t.frames := by
  have := Program.conserved (P := program)
    (fun s => ((pops s.history).count v : ℤ) - (s.returned.map Prod.fst).count v)
    (fun f => if f.returns = some v then 1 else 0) (fun s a old s' new hf => by
      cases hf with
      | call hc =>
        rcases call_accounts hc with ⟨rfl, rfl⟩ | ⟨w, rfl, rfl⟩ <;> simp [Frame.returns]
      | exec he =>
        obtain ⟨-, -, h₃⟩ := exec_values v he
        simp only [tally_cons, tally_nil]
        omega) h
  simp only [initStack, List.count_nil, pops_nil, List.map_nil] at this
  omega

end Values

/-! ## Tags -/

/-- The tag that a frame may still write into `Top`. -/
def Frame.own : Frame T → Option ℕ
  | .setData _ newTop | .readTop _ newTop | .setNext _ newTop _ | .casPush _ newTop _ =>
    some newTop.tag
  | .decSize newTop | .readOld newTop | .readNext newTop _ | .casPop newTop _ => some newTop.tag
  | _ => none

/-- The value of `Top` that a `Pop` may still compare with. -/
def Frame.oldTop : Frame T → Option Tagged
  | .readNext _ oldTop | .casPop _ oldTop => some oldTop
  | _ => none

/-- A `Pop` has read a word of `Top` that has the tag and is not null. -/
def Frame.Seen (f : Frame T) (tag : ℕ) : Prop := ∃ x, f.oldTop = some x ∧ x.index ≠ 0 ∧ x.tag = tag

/-- `Top` has the tag, and is not null. -/
def Stack.Shown (s : Stack T) (tag : ℕ) : Prop := s.top.index ≠ 0 ∧ s.top.tag = tag

/-- Only its owner may write a tag into `Top`. The tags of null words do not matter: the tag of
`Top` after the constructor was never drawn. -/
def Tags (s : Stack T) (frames : List (Frame T)) : Prop :=
  OneTime Frame.own Frame.Seen s.Shown s.drawn frames

/-- A statement draws a tag; or it moves `Top` to its own tag, which it gives up; or it leaves
`Top` alone. -/
theorem exec_tags (h : exec s f a = some (s', new)) :
    (∀ f' ∈ new, ∀ x, f'.oldTop = some x → f.oldTop = some x ∨ x = s.top) ∧
      (s'.top = s.top ∧ s'.drawn = s.drawn ++ [s.getTagCnt] ∧
          (∀ tag, tally (owns Frame.own tag) new ≤ if s.getTagCnt = tag then 1 else 0) ∨
        s'.top = s.top ∧ s'.drawn = s.drawn ∧
          (∀ tag, tally (owns Frame.own tag) new ≤ owns Frame.own tag f) ∨
        f.own = some s'.top.tag ∧ s'.drawn = s.drawn ∧
          ∀ tag, tally (owns Frame.own tag) new = 0) := by
  rcases exec_cases h with h | ⟨rfl, rfl⟩
  · revert h
    fun_cases stmt s f a <;> intro h <;> cases h <;>
      simp [Frame.own, owns, Frame.oldTop, Tagged.setPtr, Tagged.setTag, Stack.draw]
  · simp +contextual

variable {fs pre post : List (Frame T)}

theorem Tags.exec (h : Tags s (pre ++ [f] ++ post)) (hnodup : s'.drawn.Nodup)
    (he : LockFreeStack.exec s f a = some (s', new)) : Tags s' (pre ++ new ++ post) := by
  obtain ⟨hread, hcases⟩ := exec_tags he
  have hseen : ∀ f' ∈ new, ∀ tag, f'.Seen tag → (∃ g ∈ [f], g.Seen tag) ∨ s.Shown tag := by
    rintro f' hf' tag ⟨x, hx, hne, rfl⟩
    rcases hread f' hf' x hx with hx | rfl
    · exact .inl ⟨f, by simp, x, hx, hne, rfl⟩
    · exact .inr ⟨hne, rfl⟩
  rcases hcases with ⟨htop, hdrawn, hown⟩ | ⟨htop, hdrawn, hown⟩ | ⟨hself, hdrawn, hown⟩
  · have hd : s.getTagCnt ∉ s.drawn := by
      rw [hdrawn, List.nodup_append] at hnodup
      exact fun hmem => hnodup.2.2 _ hmem _ (by simp) rfl
    have hshown : s'.Shown = s.Shown := by
      funext tag
      rw [Stack.Shown, Stack.Shown, htop]
    rw [Tags, hdrawn, hshown]
    refine OneTime.draw h hd hseen fun tag => (hown tag).trans ?_
    exact Nat.le_add_left _ _
  · rw [Tags, hdrawn]
    refine OneTime.keep h (fun tag htag => ?_) hseen fun tag => by simpa using hown tag
    rwa [Stack.Shown, htop] at htag
  · rw [Tags, hdrawn]
    exact OneTime.write h (fun tag htag => htag.2.symm) (by simp [owns, hself]) hseen hown

theorem exec_drawn (h : exec s f a = some (s', new)) : s.drawn <+: s'.drawn := by
  rcases (exec_tags h).2 with ⟨-, h, -⟩ | ⟨-, h, -⟩ | ⟨-, h, -⟩
  · rw [h]
    exact List.prefix_append _ _
  · exact ⟨[], (List.append_nil _).trans h.symm⟩
  · exact ⟨[], (List.append_nil _).trans h.symm⟩

theorem step_drawn {u : Threads (Stack T) (Frame T)} {l : ℕ × Act T}
    (h : program.step t l = some u) : t.shared.drawn <+: u.shared.drawn := by
  obtain ⟨pre, old, new, post, -, -, hf, -⟩ := Program.step_frames h
  cases hf with
  | call hc =>
    rcases call_accounts hc with ⟨-, h⟩ | ⟨v, -, h⟩ <;>
      exact ⟨[], (List.append_nil _).trans (by rw [h])⟩
  | exec he => exact exec_drawn he

/-- **No word of `Top` but null comes back**, as long as no tag is drawn twice. -/
theorem tags (h : (system data next).ReachableVia ok t) (hnodup : t.shared.drawn.Nodup) :
    Tags t.shared t.frames := by
  refine h.invariant (I := fun t => t.shared.drawn.Nodup → Tags t.shared t.frames) ?_ ?_ hnodup
  · rintro _ ⟨n, rfl⟩ -
    rw [Threads.frames_idle]
    refine ⟨fun tag _ => ⟨⟨?_, ?_⟩, rfl⟩, fun _ => zero_le_one, fun tag hpos => ?_⟩
    · simp [Stack.Shown, initStack]
    · simp
    · simp at hpos
  · rintro s l t ih - hst hnodup
    have hs := ih (hnodup.sublist (step_drawn hst).sublist)
    obtain ⟨pre, old, new, post, hfs, hft, hf, -⟩ := Program.step_frames hst
    rw [hfs] at hs
    rw [hft]
    cases hf with
    | call hc =>
      rcases call_accounts hc with ⟨rfl, h⟩ | ⟨v, rfl, h⟩ <;> rw [h] <;>
        exact OneTime.keep hs (fun _ h => h) (by simp [Frame.Seen, Frame.oldTop])
          (by simp [owns, Frame.own])
    | exec he => exact hs.exec hnodup he

end NetworkLibrary.LockFreeStack
