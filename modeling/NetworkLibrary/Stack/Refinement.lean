import NetworkLibrary.Foundations.Container
import NetworkLibrary.Stack.Lifo

/-!
# What `LockFreeStack` is for

`LockFreeStack` refines the stack that its users rely on (`stack_refined`), a list to which `Push`
adds its value in front and raises `Size` one step later, and from which a `Pop` that `Size` has let
in takes the first value, as long as `GetTagCnt` returns no tag twice. What is seen of its runs are
the values that the history leaves on the stack (`Stack.contents`), and what each call is still to
do (`Frame.view`).
-/

namespace NetworkLibrary.LockFreeStack

open Foundations

variable {T : Type*} {s s' : Stack T} {f : Frame T} {a : Act T} {new : List (Frame T)} {l : List T}
  {h : List (Op T)}

/-- A value goes on top of the others. -/
def pushed (items : List T) (tData : T) : List T := tData :: items

/-- What an operation makes of the values on the stack. -/
def Op.apply (items : List T) : Op T → List T
  | .push v => pushed items v
  | .pop _ => items.tail

/-- The values that a history leaves on the stack, the top first. -/
def left (h : List (Op T)) : List T := h.foldl Op.apply []

theorem left_append (op : Op T) : left (h ++ [op]) = op.apply (left h) := by
  rw [left, List.foldl_append]
  rfl

theorem Lifo.left (hl : Lifo h l) : LockFreeStack.left h = l := by
  induction hl with
  | nil => rfl
  | push _ ih => rw [left_append, ih]; rfl
  | pop _ ih => rw [left_append, ih]; rfl

/-- The value that a `Pop` takes off is the first one. -/
theorem Lifo.of_pop {v : T} (hl : Lifo (h ++ [.pop v]) l) : Lifo h (v :: l) := by
  generalize hh : h ++ [.pop v] = h' at hl
  cases hl with
  | nil => simp at hh
  | push _ =>
    obtain ⟨-, hop⟩ := List.append_inj' hh rfl
    cases hop
  | pop hl =>
    obtain ⟨rfl, hop⟩ := List.append_inj' hh rfl
    cases hop
    exact hl

/-- What the stack holds. -/
def Stack.contents (s : Stack T) : Container T where
  items := left s.history
  size := s.size
  called := s.called
  returned := s.returned.map Prod.snd

/-- What a call is still to do at a statement: the compare-and-swaps on `Top` are where a value
takes its place and leaves it. -/
def Frame.view : Frame T → Option (Container.Frame T)
  | .alloc v | .tagPush v _ | .setData v _ | .readTop v _ | .setNext v _ _ | .casPush v _ _ =>
    some (.insert v)
  | .incSize => some .raise
  | .tagPop | .decSize _ => some .lower
  | .undoSize => some .undo
  | .readOld _ | .readNext _ _ | .casPop _ _ => some .remove
  | .readData _ v | .free _ v _ | .ret v _ => some (.ret v)

/-- What is seen of the stack and its threads. -/
def seen (t : Threads (Stack T) (Frame T)) : Threads (Container T) (Container.Frame T) :=
  ⟨t.shared.contents, t.calls.map (List.filterMap Frame.view)⟩

/-- The history is one of a stack, and every `Pop` returns the value of its operation. -/
def Stack.InOrder (s : Stack T) : Prop :=
  (∃ l, Lifo s.history l) ∧ ∀ r ∈ s.returned, r.1 = r.2

theorem refines_stmt (hs' : s'.InOrder) (h : stmt s f a = some (s', new)) :
    (s'.contents = s.contents ∧ new.filterMap Frame.view = f.view.toList) ∨
      ∃ f', f.view = some f' ∧
        Container.exec pushed s.contents f' = some (s'.contents, new.filterMap Frame.view) := by
  cases f with
  | alloc v =>
    cases a with
    | fresh flag tag =>
      cases h
      exact .inl ⟨rfl, rfl⟩
    | reuse n flag tag =>
      obtain ⟨-, h⟩ := Option.ite_none_right_eq_some.1 h
      cases h
      exact .inl ⟨rfl, rfl⟩
    | _ => cases h
  | casPush v x oldTop =>
    simp only [stmt] at h
    split_ifs at h <;> cases h
    · have hitems : pushed s.contents.items v = left (s.history ++ [.push v]) :=
        (left_append (.push v)).symm
      exact .inr ⟨_, rfl, Container.exec_insert (Container.ext hitems rfl rfl rfl)⟩
    · exact .inl ⟨rfl, rfl⟩
  | decSize x =>
    simp only [stmt] at h
    split_ifs at h with hle <;> cases h
    · exact .inr ⟨_, rfl, if_pos hle⟩
    · exact .inr ⟨_, rfl, if_neg hle⟩
  | incSize | undoSize =>
    cases h
    exact .inr ⟨_, rfl, rfl⟩
  | casPop x oldTop =>
    simp only [stmt] at h
    split_ifs at h <;> cases h
    · obtain ⟨⟨l, hl⟩, -⟩ := hs'
      have hitems : s.contents.items = s.data oldTop.index :: l := hl.of_pop.left
      exact .inr ⟨_, rfl, Container.exec_remove hitems (Container.ext hl.left.symm rfl rfl rfl)⟩
    · exact .inl ⟨rfl, rfl⟩
  | ret v returnData =>
    cases h
    obtain rfl : v = returnData := hs'.2 (v, returnData) (by simp)
    have hret : s.contents.returned ++ [v] = (s.returned ++ [(v, v)]).map Prod.snd := by
      rw [List.map_append]
      rfl
    refine .inr ⟨_, rfl, congrArg (fun c => some (c, [])) ?_⟩
    exact Container.ext rfl rfl rfl hret
  | _ =>
    cases h
    exact .inl ⟨rfl, rfl⟩

/-- **The stack is a list, seen through `Stack.contents`**, as long as its history is one of a
stack. -/
theorem refines :
    Program.Refines (Container.program pushed) (program (T := T)) Stack.contents Frame.view
      Stack.InOrder where
  call {s s' a new} _ _ h := by
    rcases call_accounts h with ⟨rfl, rfl⟩ | ⟨v, rfl, rfl⟩
    · exact ⟨.remove, rfl⟩
    · exact ⟨.insert v, rfl⟩
  exec {s s' f a new} _ hs' h := by
    rcases exec_cases h with h | ⟨rfl, rfl⟩
    · exact (refines_stmt hs' h).imp id fun ⟨f', hf', h⟩ => ⟨f', .next, hf', h⟩
    · exact .inl ⟨rfl, by cases hf : f.view <;> simp [hf]⟩

variable {t : Threads (Stack T) (Frame T)} {data : ℕ → T} {next : ℕ → ℕ}

/-- **`LockFreeStack` refines the stack that its users rely on**, as long as `GetTagCnt` returns no
tag twice: what is seen of a run is a run of that stack, and every `Pop` that `Size` has let in
finds a value. -/
theorem stack_refined (h : (system data next).Reachable t) (hnodup : t.shared.drawn.Nodup) :
    (Container.system pushed).Reachable (seen t) ∧
      tally Container.Frame.removes (seen t).frames ≤ (seen t).shared.items.length := by
  have hseen : (Container.system pushed).Reachable (seen t) :=
    refines.reachable (fun s => s.drawn.Nodup)
      (fun ht hnodup => by
        obtain ⟨l, hl⟩ := exists_inv ht hnodup
        exact ⟨⟨_, hl.lifo⟩, hl.returned⟩)
      (fun hst hnodup => hnodup.sublist (step_drawn hst).sublist) h hnodup
  exact ⟨hseen, Container.removes_le (fun _ _ => rfl) hseen⟩

/-- A value is pushed while the node of another one is popped and used again. -/
theorem stack_refined_recycled :
    ∃ t, (system (fun _ => 0) (fun _ => 0)).Reachable t ∧
      (seen t).shared.items = [10] ∧ (seen t).shared.returned = [20, 30] ∧
      (Container.system pushed).Reachable (seen t) := by
  obtain ⟨t, ht, hp⟩ := Lts.exists_reachable_of_run (M := system (fun _ => 0) (fun _ => 0))
    ⟨2, rfl⟩
    (pushing 0 10 ++ going 0 6 ++ pushing 0 20 ++ going 0 6 ++ [(1, .pop)] ++ going 1 4 ++
      [(0, .pop)] ++ going 0 8 ++ [(0, .push 30), (0, .reuse 2 true 7)] ++ going 0 6 ++ going 1 7)
    (p := fun t => decide ((seen t).shared.items = [10] ∧ (seen t).shared.returned = [20, 30] ∧
      t.shared.drawn.Nodup)) (by decide +kernel)
  obtain ⟨hitems, hret, hnodup⟩ := of_decide_eq_true hp
  exact ⟨t, ht, hitems, hret, (stack_refined ht hnodup).1⟩

end NetworkLibrary.LockFreeStack
