import NetworkLibrary.Queue.Empty
import NetworkLibrary.Stack.Accounts

/-!
# Reports of an empty stack or queue

`Size` of `LockFreeStack` is a reservation counter like that of `LockFreeQueue`, and both can report
that they are empty when they are not: a call that was refused and has not raised `Size` again makes
`Size` too small for the next one (`exists_untruthful`). This is the only way (`empty_truthful`).
-/

namespace NetworkLibrary.LockFreeStack

open Foundations

variable {T U : Type*} {s s' : Stack T} {f : Frame T} {a : Act T} {new : List (Frame T)} {r : Role}

/-- What the frames do to `Size`: `Pop` returns no value after `undoSize`, and one after `ret`. -/
def Frame.role : Frame T → Option Role
  | .alloc _ | .tagPush _ _ | .setData _ _ | .readTop _ _ | .setNext _ _ _ => some .inserts
  | .casPush _ _ _ | .incSize => some .inserts
  | .tagPop | .decSize _ => some .asks
  | .undoSize => some .refused
  | .readOld _ | .readNext _ _ | .casPop _ _ => some .admitted
  | .readData _ _ | .free _ _ _ | .ret _ _ => some .admitted

/-- The calls of `Pop`. -/
def removes : Act T → Bool
  | .pop => true
  | _ => false

/-- The statement of `Pop` that lowers `Size`. -/
def Frame.Lowers (f : Frame T) : Prop := ∃ newTop, f = .decSize newTop

theorem exec_turn (h : exec s f a = some (s', new)) (hf : f.role = some r) :
    Based Frame.role r new ∧ s'.size = s.size ∨
      r = .inserts ∧ new = [] ∧ s'.size = s.size + 1 ∨
      r = .refused ∧ new = [] ∧ s'.size = s.size + 1 ∨
      r = .admitted ∧ new = [] ∧ s'.size = s.size ∨
      r = .asks ∧ 0 < s.size ∧ Based Frame.role .admitted new ∧ s'.size = s.size - 1 ∨
      r = .asks ∧ s.size ≤ 0 ∧ Based Frame.role .refused new ∧ s'.size = s.size - 1 ∧ f.Lowers := by
  rcases exec_cases h with h | ⟨rfl, rfl⟩
  · revert h
    fun_cases stmt s f a <;> intro h <;> cases h <;> simp [Frame.role] at hf <;>
      subst hf <;> simp_all [Frame.role, Based, Stack.draw, Frame.Lowers]
  · exact .inl ⟨.inl ⟨rfl, hf⟩, rfl⟩

theorem reserves : Reserves (program (T := T)) Stack.size Frame.role removes Frame.Lowers where
  call {s s' a new} h := by
    have hc : call s a = some (s', new) := h
    revert hc
    fun_cases call s a <;> intro hc <;> cases hc <;> simp [removes, Based, Frame.role]
  helper {s s' f a new} h hf := by cases f <;> cases hf
  turn h hf := exists_next (exec_turn h hf)

/-- **Reports of an empty container.** In a run of a queue, and of a stack, in which every `Size`
that is not positive when it is lowered would not be positive either without the calls that have
lowered it in vain, every report is excused. -/
theorem empty_truthful [Inhabited U] {data : ℕ → T} {next : ℕ → ℕ}
    {w : Watched (LockFreeQueue.Queue U) (LockFreeQueue.Frame U) (LockFreeQueue.Act U)}
    {v : Watched (Stack T) (Frame T) (Act T)}
    (hw : (LockFreeQueue.program.watched (LockFreeQueue.initQueue U)).ReachableVia
      (Orderly LockFreeQueue.Queue.size LockFreeQueue.Frame.role (· = .decSize)) w)
    (hv : (program.watched (initStack data next)).ReachableVia
      (Orderly Stack.size Frame.role Frame.Lowers) v) :
    Truthful LockFreeQueue.program (LockFreeQueue.initQueue U) LockFreeQueue.Frame.role
        LockFreeQueue.removes w ∧
      Truthful program (initStack data next) Frame.role removes v :=
  ⟨LockFreeQueue.reserves.truthful rfl hw, reserves.truthful rfl hv⟩

/-- `Orderly`, as a test. -/
def orderly {G F A : Type*} (size : G → ℤ) (role : F → Option Role) (w : Watched G F A)
    (_ : ℕ × A) : Bool :=
  0 < size w.threads.shared ∨ size w.threads.shared + refusals role w.threads.frames ≤ 0

/-- The start of a run with three threads. -/
def idle {G F A : Type*} (g : G) : Watched G F A := ⟨Threads.idle g 3, 0, fun _ => 0, []⟩

/-- A thread runs an empty `Dequeue`. -/
def emptyDequeue (i : ℕ) : List (ℕ × LockFreeQueue.Act ℕ) := [(i, .dequeue), (i, .next)]

/-- A thread runs `Enqueue` alone. -/
def oneEnqueue (i : ℕ) : List (ℕ × LockFreeQueue.Act ℕ) :=
  [(i, .enqueue 7), (i, .fresh false)] ++ List.replicate 13 (i, .next)

def emptyPop (i : ℕ) : List (ℕ × Act ℕ) := [(i, .pop), (i, .next), (i, .next)]

def onePush (i : ℕ) : List (ℕ × Act ℕ) :=
  [(i, .push 7), (i, .fresh false 0)] ++ List.replicate 6 (i, .next)

/-- Two calls that overlap find the queue and the stack empty. -/
theorem empty_truthful_two : ∃ w v,
    (.ret 1 .undoSize ∈ w.log ∧ Truthful LockFreeQueue.program (LockFreeQueue.initQueue ℕ)
      LockFreeQueue.Frame.role LockFreeQueue.removes w) ∧
    .ret 1 .undoSize ∈ v.log ∧
      Truthful program (initStack (T := ℕ) (fun _ => 0) fun _ => 0) Frame.role removes v := by
  have hqueue : ((LockFreeQueue.program.watched (LockFreeQueue.initQueue ℕ)).run
      (orderly LockFreeQueue.Queue.size LockFreeQueue.Frame.role)
      (idle (LockFreeQueue.initQueue ℕ))
      (emptyDequeue 0 ++ emptyDequeue 1 ++ [(1, .next), (0, .next)])).map Watched.log =
      some [.call 0 .dequeue, .call 1 .dequeue, .ret 1 .undoSize, .ret 0 .undoSize] := by rfl
  have hstack : ((program.watched (initStack (fun _ => 0) fun _ => 0)).run
      (orderly Stack.size Frame.role) (idle (initStack (T := ℕ) (fun _ => 0) fun _ => 0))
      (emptyPop 0 ++ emptyPop 1 ++ [(1, .next), (0, .next)])).map Watched.log =
      some [.call 0 .pop, .call 1 .pop, .ret 1 .undoSize, .ret 0 .undoSize] := by rfl
  obtain ⟨w, hw, hwlog⟩ := Option.map_eq_some_iff.1 hqueue
  obtain ⟨v, hv, hvlog⟩ := Option.map_eq_some_iff.1 hstack
  have h := empty_truthful (.run (fun s l h f _ _ => ?_) _ (.start ⟨3, rfl⟩) hw)
    (.run (fun s l h f _ _ => ?_) _ (.start ⟨3, rfl⟩) hv)
  · exact ⟨w, v, ⟨by simp [hwlog], h.1⟩, by simp [hvlog], h.2⟩
  · have := of_decide_eq_true h
    omega
  · have := of_decide_eq_true h
    omega

/-- Between the two statements of a refused `Dequeue`, a value is put in and asked for. -/
theorem queue_log :
    ((LockFreeQueue.program.watched (LockFreeQueue.initQueue ℕ)).run (fun _ _ => true)
      (idle (LockFreeQueue.initQueue ℕ))
      (emptyDequeue 0 ++ oneEnqueue 1 ++ emptyDequeue 2 ++ [(2, .next), (0, .next)])).map
        Watched.log = some [.call 0 .dequeue, .call 1 (.enqueue 7), .ret 1 .incSize,
          .call 2 .dequeue, .ret 2 .undoSize, .ret 0 .undoSize] := by
  rfl

theorem stack_log :
    ((program.watched (initStack (fun _ => 0) fun _ => 0)).run (fun _ _ => true)
      (idle (initStack (fun _ => 0) fun _ => 0))
      (emptyPop 0 ++ onePush 1 ++ emptyPop 2 ++ [(2, .next), (0, .next)])).map
        Watched.log = some [.call 0 .pop, .call 1 (.push 7), .ret 1 .incSize,
          .call 2 .pop, .ret 2 .undoSize, .ret 0 .undoSize] := by
  rfl

/-- A removal that was refused misleads the next one: an element is there, nobody takes it, and the
container is reported to be empty. -/
theorem exists_untruthful :
    (∃ w, (LockFreeQueue.program.watched (LockFreeQueue.initQueue ℕ)).Reachable w ∧
      ¬Truthful LockFreeQueue.program (LockFreeQueue.initQueue ℕ) LockFreeQueue.Frame.role
        LockFreeQueue.removes w) ∧
    ∃ v, (program.watched (initStack (fun _ => 0) fun _ => 0)).Reachable v ∧
      ¬Truthful program (initStack (T := ℕ) (fun _ => 0) fun _ => 0) Frame.role removes v := by
  obtain ⟨w, hw, hwlog⟩ := Option.map_eq_some_iff.1 queue_log
  obtain ⟨v, hv, hvlog⟩ := Option.map_eq_some_iff.1 stack_log
  exact ⟨⟨w, .run (fun _ _ _ => trivial) _ (.start ⟨3, rfl⟩) hw, not_truthful hwlog rfl rfl rfl⟩,
    v, .run (fun _ _ _ => trivial) _ (.start ⟨3, rfl⟩) hv, not_truthful hvlog rfl rfl rfl⟩

end NetworkLibrary.LockFreeStack
