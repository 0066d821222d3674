import NetworkLibrary.Foundations.Container
import NetworkLibrary.Queue.Fifo

/-!
# What `LockFreeQueue` is for

Where `SendQ` and `JobQueue` are used, the queue is taken to be a list: `Enqueue` links its value
and raises `Size` one step later, `Dequeue` lowers `Size` and, if that was positive, takes the first
value. `LockFreeQueue` refines that queue (`queue_refined`) under the conditions of `fifo`: what is
seen of its runs are the values that have been linked and not dequeued (`Queue.contents`), and what
each call is still to do (`Frame.view`).
-/

namespace NetworkLibrary.LockFreeQueue

open Foundations

variable {T : Type*} {q q' : Queue T} {f : Frame T} {a : Act T} {new : List (Frame T)}

/-- A value goes behind the others. -/
def enqueued (items : List T) (data : T) : List T := items ++ [data]

/-- What the queue holds. -/
def Queue.contents (q : Queue T) : Container T where
  items := q.linked.drop q.dequeued.length
  size := q.size
  called := q.called
  returned := q.returned

/-- What a call is still to do at a statement: a value takes its place at the compare-and-swap on
`Next`, and leaves it at the one on `Head`. The release of a node is not seen. -/
def Frame.view : Frame T → Option (Container.Frame T)
  | .allocNode v | .setData v _ | .setNext v _ | .incNew v _ | .tagNew v _ | .readTail v _ =>
    some (.insert v)
  | .incOld v _ _ | .readTailAgain v _ _ | .readNext v _ _ _ | .testTail v _ _ _ =>
    some (.insert v)
  | .casNext v _ _ | .help v _ _ _ => some (.insert v)
  | .casTail _ _ | .incSize => some .raise
  | .decSize => some .lower
  | .undoSize => some .undo
  | .tagNext | .readHead _ | .readCurTail _ _ | .readHeadNext _ _ _ | .testHead _ _ _ =>
    some .remove
  | .moveTail _ _ | .readData _ _ | .casHead _ _ _ => some .remove
  | .ret v => some (.ret v)
  | .decRef _ | .takeFlag _ | .freeNode _ | .setFlag _ => none

/-- What is seen of the queue and its threads. -/
def seen (t : Threads (Queue T) (Frame T)) : Threads (Container T) (Container.Frame T) :=
  ⟨t.shared.contents, t.calls.map (List.filterMap Frame.view)⟩

/-- The values dequeued are the first ones linked. -/
def Queue.InOrder (q : Queue T) : Prop := q.dequeued <+: q.linked

/-- A value that is dequeued is the first one. -/
theorem items_of_dequeued {v : T} {rest : List T}
    (h : q.dequeued ++ [v] ++ rest = q.linked) :
    q.contents.items = v :: rest ∧ q.linked.drop (q.dequeued ++ [v]).length = rest := by
  constructor
  · show q.linked.drop q.dequeued.length = v :: rest
    rw [← h, List.append_assoc, List.drop_left]
    rfl
  · rw [← h, List.drop_left]

theorem refines_stmt (hq : q.InOrder) (hq' : q'.InOrder) (h : stmt q f a = some (q', new)) :
    (q'.contents = q.contents ∧ new.filterMap Frame.view = f.view.toList) ∨
      ∃ f', f.view = some f' ∧
        Container.exec enqueued q.contents f' = some (q'.contents, new.filterMap Frame.view) := by
  cases f with
  | allocNode v =>
    cases a with
    | fresh flag =>
      cases h
      exact .inl ⟨rfl, rfl⟩
    | reuse n flag =>
      obtain ⟨-, h⟩ := Option.ite_none_right_eq_some.1 h
      cases h
      exact .inl ⟨rfl, rfl⟩
    | _ => cases h
  | testTail v x oldTail next =>
    simp only [stmt] at h
    split_ifs at h <;> cases h <;> exact .inl ⟨rfl, rfl⟩
  | casNext v x oldTail =>
    simp only [stmt] at h
    split_ifs at h <;> cases h
    · have hitems : q.contents.items ++ [v] = (q.linked ++ [v]).drop q.dequeued.length :=
        (List.drop_append_of_le_length hq.length_le).symm
      exact .inr ⟨_, rfl, Container.exec_insert (Container.ext hitems rfl rfl rfl)⟩
    · exact .inl ⟨rfl, rfl⟩
  | casTail | help | decRef | takeFlag | testHead | moveTail =>
    simp only [stmt] at h
    split_ifs at h <;> cases h <;> exact .inl ⟨rfl, rfl⟩
  | decSize =>
    simp only [stmt] at h
    split_ifs at h with hle <;> cases h
    · exact .inr ⟨_, rfl, if_pos hle⟩
    · exact .inr ⟨_, rfl, if_neg hle⟩
  | incSize | undoSize | ret =>
    cases h
    exact .inr ⟨_, rfl, rfl⟩
  | casHead next curHead v =>
    simp only [stmt] at h
    split_ifs at h <;> cases h
    · obtain ⟨rest, hrest⟩ := hq'
      obtain ⟨hitems, hdrop⟩ := items_of_dequeued hrest
      exact .inr ⟨_, rfl, Container.exec_remove hitems (Container.ext hdrop.symm rfl rfl rfl)⟩
    · exact .inl ⟨rfl, rfl⟩
  | _ =>
    cases h
    exact .inl ⟨rfl, rfl⟩

/-- **The queue is a list, seen through `Queue.contents`**, as long as the values dequeued are the
first ones linked. -/
theorem refines :
    Program.Refines (Container.program enqueued) (program (T := T)) Queue.contents Frame.view
      Queue.InOrder where
  call {q q' a new} _ _ h := by
    cases a with
    | enqueue v =>
      cases h
      exact ⟨.insert v, rfl⟩
    | dequeue =>
      cases h
      exact ⟨.remove, rfl⟩
    | _ => cases h
  exec {q q' f a new} hq hq' h := by
    rcases exec_cases h with h | ⟨rfl, rfl⟩
    · exact (refines_stmt hq hq' h).imp id fun ⟨f', hf', h⟩ => ⟨f', .next, hf', h⟩
    · exact .inl ⟨rfl, by cases hf : f.view <;> simp [hf]⟩

variable {t : Threads (Queue T) (Frame T)}

/-- **`LockFreeQueue` refines the queue that its users rely on**, in the runs whose steps meet
`Guarded`, while fewer than 2^16 tags are drawn: what is seen of a run is a run of that queue, and
every `Dequeue` that `Size` has let in finds a value. -/
theorem queue_refined [Inhabited T] (h : (system T).ReachableVia (Program.Steps Guarded) t)
    (hcnt : t.shared.tagCnt < 2 ^ 16) :
    (Container.system enqueued).Reachable (seen t) ∧
      tally Container.Frame.removes (seen t).frames ≤ (seen t).shared.items.length := by
  have hseen : (Container.system enqueued).Reachable (seen t) :=
    refines.reachable (fun q => q.tagCnt < 2 ^ 16)
      (fun ht hcnt => by
        obtain ⟨w, hw⟩ := exists_inv ht hcnt
        exact ⟨_, hw.values.symm⟩)
      (fun hst hcnt => (step_tagCnt hst).trans_lt hcnt) h hcnt
  refine ⟨hseen, Container.removes_le (fun items v => ?_) hseen⟩
  rw [enqueued, List.length_append, List.length_singleton]

/-- Two values are enqueued, and one is dequeued. -/
theorem queue_refined_two :
    ∃ t, (system ℕ).ReachableVia (Program.Steps Guarded) t ∧
      (seen t).shared.items = [20] ∧ (seen t).shared.returned = [10] ∧
      (Container.system enqueued).Reachable (seen t) := by
  obtain ⟨t, ht, hp⟩ := Lts.exists_reachableVia_of_run (M := system ℕ) steps_guarded ⟨2, rfl⟩
    (enqueuing 0 10 ++ going 0 10 ++ enqueuing 1 20 ++ going 1 20 ++ going 0 3 ++ [(0, .dequeue)] ++
      going 0 13)
    (p := fun t => decide ((seen t).shared.items = [20] ∧ (seen t).shared.returned = [10] ∧
      t.shared.tagCnt = 3)) (by decide +kernel)
  obtain ⟨hitems, hret, hcnt⟩ := of_decide_eq_true hp
  exact ⟨t, ht, hitems, hret, (queue_refined ht (by omega)).1⟩

end NetworkLibrary.LockFreeQueue
