import NetworkLibrary.Foundations.Simulation
import NetworkLibrary.Memory.LockFreeMemoryPool
import NetworkLibrary.Stack.Lifo

/-!
# The free list of `LockFreeMemoryPool`

The free list is `LockFreeStack` once more: `PopFromFreeNode` is `Pop` and `PushtoFreeNode` is
`Push`, with the blocks of the users in the place of the pool of the stack. Every run of the memory
pool is one of a stack (`simulates`), whose invariant then says who owns a node; `TotalNodeCnt` and
`UseNodeCnt` are counted here.
-/

namespace NetworkLibrary.LockFreeMemoryPool

open Foundations
open LockFreeStack (Tagged Stack initStack)

/-- The frame of the stack; the statements of `Alloc`, `NewNode` and `Free` themselves have none. -/
def Frame.view : Frame → Option (LockFreeStack.Frame Unit)
  | .tagPop => some .tagPop
  | .decFree newTop => some (.decSize newTop)
  | .undoFree => some .undoSize
  | .readOld newTop => some (.readOld newTop)
  | .readNext newTop oldTop => some (.readNext newTop oldTop)
  | .casPop newTop oldTop => some (.casPop newTop oldTop)
  | .incUse node => some (.readData node ())
  | .tagPush newTop => some (.tagPush () newTop)
  | .readHead newTop => some (.readTop () newTop)
  | .setNext newTop oldTop => some (.setNext () newTop oldTop)
  | .casPush newTop oldTop => some (.casPush () newTop oldTop)
  | .incFree => some .incSize
  | .grow _ | .newNode | .incTotal | .decUse => none

/-- The nodes that a frame was given are not null. -/
def Frame.Sound : Frame → Prop
  | .casPop _ oldTop => oldTop.index ≠ 0
  | .incUse node => node ≠ 0
  | .tagPush newTop => newTop.index ≠ 0
  | _ => True

/-- The stack has the words of the memory pool. -/
structure Same (p : Pool) (s : Stack Unit) : Prop where
  top : s.top = p.headFreeNode
  size : s.size = p.freeNodeCnt
  tagCnt : s.tagCnt = p.tagCnt
  next : s.next = p.next
  pool : s.pool = p.user
  fresh : s.fresh = p.fresh
  drawn : s.drawn = p.drawn
  fault : s.fault = p.fault
  fresh_pos : p.fresh ≠ 0
  user : ∀ n ∈ p.user, n ≠ 0

variable {p p' : Pool} {s : Stack Unit} {f : Frame} {a : Act} {new : List Frame}

attribute [local simp] Program.runStack Program.stepStack LockFreeStack.program LockFreeStack.call
  LockFreeStack.exec LockFreeStack.stmt LockFreeStack.Frame.deref LockFreeStack.Stack.draw
  LockFreeStack.Stack.getTagCnt Pool.draw Pool.getTagCnt Frame.view Frame.Sound

theorem Same.call (h : Same p s) (hc : call p a = some (p', new)) :
    ∃ as s', LockFreeStack.program.runStack s [] as = some (s', new.filterMap Frame.view) ∧
      Same p' s' ∧ (∀ f ∈ new.tail, f.view = none) ∧ ∀ f ∈ new, f.Sound := by
  cases a with
  | alloc =>
    cases hc
    exact ⟨[.pop], s, rfl, h, by simp, by simp⟩
  | free node flag =>
    simp only [LockFreeMemoryPool.call, Option.ite_none_right_eq_some] at hc
    obtain ⟨hmem, hc⟩ := hc
    cases hc
    have hpool : node ∈ s.pool := h.pool ▸ hmem
    refine ⟨[.push (), .reuse node flag 0],
      { s with called := s.called ++ [()], pool := s.pool.erase node }, ?_, ?_, ?_, ?_⟩
    · simp [hpool]
    · exact { h with
        pool := by rw [← h.pool]
        user := fun n hn => h.user n (List.mem_of_mem_erase hn) }
    · simp
    · simp [h.user node hmem]
  | _ => cases hc

/-- A statement that dereferences `nullptr` does so in the stack too. -/
theorem exec_fault (s : Stack Unit) (hf : f.deref = some 0) :
    LockFreeStack.program.runStack s f.view.toList [.next] =
      some ({ s with fault := true }, [f].filterMap Frame.view) := by
  cases f <;> simp_all [Frame.deref]

/-- The statements, one by one. -/
theorem Same.exec (h : Same p s) (hf : f.Sound) (he : exec p f a = some (p', new)) :
    ∃ as s', LockFreeStack.program.runStack s f.view.toList as =
        some (s', new.filterMap Frame.view) ∧
      Same p' s' ∧ (∀ f ∈ new.tail, f.view = none) ∧ ∀ f ∈ new, f.Sound := by
  rw [LockFreeMemoryPool.exec] at he
  split_ifs at he with hderef
  · cases he
    exact ⟨_, _, exec_fault s hderef, { h with fault := rfl }, by simp, by simpa using hf⟩
  have htag : s.getTagCnt = p.getTagCnt := by simp [h.tagCnt]
  cases f with
  | tagPop =>
    cases he
    refine ⟨[.next], s.draw, by simp [h.tagCnt], ?_, by simp, by simp⟩
    exact { h with
      tagCnt := congrArg (· + 1) h.tagCnt
      drawn := by simp [h.drawn, h.tagCnt] }
  | decFree newTop =>
    simp only [stmt] at he
    split_ifs at he with hle <;> cases he
    · refine ⟨[.next], { s with size := s.size - 1 }, by simp [h.size, hle], ?_, by simp, by simp⟩
      exact { h with size := congrArg (· - 1) h.size }
    · refine ⟨[.next], { s with size := s.size - 1 }, by simp [h.size, hle], ?_, by simp, by simp⟩
      exact { h with size := congrArg (· - 1) h.size }
  | undoFree =>
    cases he
    refine ⟨[.next], { s with size := s.size + 1 }, by simp, ?_, by simp, by simp⟩
    exact { h with size := congrArg (· + 1) h.size }
  | readOld newTop =>
    cases he
    exact ⟨[.next], s, by simp [h.top], h, by simp, by simp⟩
  | readNext newTop oldTop =>
    cases he
    have hne : oldTop.index ≠ 0 := fun h => hderef (congrArg some h)
    exact ⟨[.next], s, by simp [hne, h.next], h, by simp, by simpa using hne⟩
  | casPop newTop oldTop =>
    simp only [stmt] at he
    split_ifs at he with hcas <;> cases he
    · refine ⟨[.next], { s with
        top := newTop, history := s.history ++ [.pop ()] }, by simp [h.top, hcas], ?_, by simp, ?_⟩
      · exact { h with top := rfl }
      · simpa using hf
    · exact ⟨[.next], s, by simp [h.top, hcas], h, by simp, by simp⟩
  | grow i =>
    cases i with
    | zero =>
      cases he
      exact ⟨[.pop], s, rfl, h, by simp, by simp⟩
    | succ i =>
      cases he
      exact ⟨[], s, rfl, h, by simp, by simp⟩
  | incUse node =>
    cases he
    have hne : node ≠ 0 := hf
    refine ⟨[.next, .next, .next], { s with
      pool := node :: s.pool, returned := s.returned ++ [((), ())] }, by simp [hne], ?_, by simp,
      by simp⟩
    exact { h with
      pool := congrArg (node :: ·) h.pool
      user := List.forall_mem_cons.2 ⟨hne, h.user⟩ }
  | newNode =>
    cases a with
    | new flag =>
      cases he
      refine ⟨[.push (), .fresh flag 0], { s with
        called := s.called ++ [()], fresh := s.fresh + 1 }, by simp [h.fresh], ?_, by simp, ?_⟩
      · exact { h with fresh := congrArg (· + 1) h.fresh, fresh_pos := Nat.succ_ne_zero _ }
      · simpa using h.fresh_pos
    | _ => cases he
  | incTotal =>
    cases he
    exact ⟨[], s, rfl, { h with }, by simp, by simp⟩
  | tagPush newTop =>
    cases he
    have hne : newTop.index ≠ 0 := hf
    refine ⟨[.next, .next], s.draw, ?_, ?_, by simp, by simp⟩
    · simp [hne, h.tagCnt, Tagged.setTag]
    · exact { h with
        tagCnt := congrArg (· + 1) h.tagCnt
        drawn := by simp [h.drawn, h.tagCnt] }
  | readHead newTop =>
    cases he
    exact ⟨[.next], s, by simp [h.top], h, by simp, by simp⟩
  | setNext newTop oldTop =>
    cases he
    have hne : newTop.index ≠ 0 := fun h => hderef (congrArg some h)
    refine ⟨[.next], { s with next := Function.update s.next newTop.index oldTop.index },
      by simp [hne], ?_, by simp, by simp⟩
    exact { h with next := by rw [← h.next] }
  | casPush newTop oldTop =>
    simp only [stmt] at he
    split_ifs at he with hcas <;> cases he
    · refine ⟨[.next], { s with
        top := newTop, history := s.history ++ [.push ()] }, by simp [h.top, hcas], ?_, by simp,
        by simp⟩
      exact { h with top := rfl }
    · exact ⟨[.next], s, by simp [h.top, hcas], h, by simp, by simp⟩
  | incFree =>
    cases he
    refine ⟨[.next], { s with size := s.size + 1 }, by simp, ?_, by simp, by simp⟩
    exact { h with size := congrArg (· + 1) h.size }
  | decUse =>
    cases he
    exact ⟨[], s, rfl, { h with }, by simp, by simp⟩

/-- **The free list is a stack.** -/
theorem simulates :
    Program.Simulates LockFreeStack.program program Same Frame.view Frame.Sound where
  call h hc := h.call hc
  exec h hf he := h.exec hf he

/-! ## The constructor -/

variable {flags : ℕ → Bool} {initSize : ℕ}

/-- A `Push` alone, which gets a new node. -/
theorem push_alone (s : Stack Unit) (hne : s.fresh ≠ 0) (flag : Bool) :
    LockFreeStack.program.runStack s [] ([.push (), .fresh flag 0] ++ List.replicate 6 .next) =
      some ({ s.draw with
        called := s.called ++ [()]
        fresh := s.fresh + 1
        data := Function.update s.data s.fresh ()
        next := Function.update s.next s.fresh s.top.index
        top := ⟨s.fresh, flag, s.getTagCnt⟩
        history := s.history ++ [.push ()]
        size := s.size + 1 }, []) := by
  have hderef : ¬some s.fresh = some 0 := fun h => hne (Option.some.inj h)
  show LockFreeStack.program.runStack s []
    [.push (), .fresh flag 0, .next, .next, .next, .next, .next, .next] = _
  refine Eq.trans (Program.runStack_call _ rfl) ?_
  -- `alloc`, `tagPush`, `setData`, `readTop`, `setNext`, `casPush`, `incSize`
  refine Eq.trans (Program.runStack_exec _ rfl) ?_
  refine Eq.trans (Program.runStack_exec _ rfl) ?_
  refine Eq.trans (Program.runStack_exec _ (if_neg hderef)) ?_
  refine Eq.trans (Program.runStack_exec _ rfl) ?_
  refine Eq.trans (Program.runStack_exec _ (if_neg hderef)) ?_
  refine Eq.trans (Program.runStack_exec _ (if_pos rfl)) ?_
  exact Eq.trans (Program.runStack_exec _ rfl) rfl

/-- `NewNode` alone is a `Push` alone. -/
theorem Same.addNode (h : Same p s) (flag : Bool) : ∃ s',
    LockFreeStack.program.runStack s []
      ([.push (), .fresh flag 0] ++ List.replicate 6 .next) = some (s', []) ∧
      Same (p.addNode flag) s' := by
  refine ⟨_, push_alone s (h.fresh ▸ h.fresh_pos) flag, ?_⟩
  exact {
    top := by simp [Pool.addNode, h.tagCnt, h.fresh]
    size := by simp [Pool.addNode, h.size]
    tagCnt := by simp [Pool.addNode, h.tagCnt]
    next := by simp [Pool.addNode, h.next, h.top, h.fresh]
    pool := h.pool
    fresh := by simp [Pool.addNode, h.fresh]
    drawn := by simp [Pool.addNode, h.drawn, h.tagCnt]
    fault := h.fault
    fresh_pos := Nat.succ_ne_zero _
    user := h.user }

/-- The pool that is constructed is a stack after as many `Push`es, by a thread of its own. -/
theorem exists_constructed (flags : ℕ → Bool) (initSize n : ℕ) :
    ∃ t, (LockFreeStack.system (T := Unit) (fun _ => ()) fun _ => 0).Reachable t ∧
      t.calls = List.replicate n [] ++ [[]] ∧ Same (construct flags initSize) t.shared := by
  have hnodes : ∀ k, ∃ t, (LockFreeStack.system (T := Unit) (fun _ => ()) fun _ => 0).Reachable t ∧
      t.calls = List.replicate n [] ++ [[]] ∧
      Same ((emptyPool initSize).addNodes flags k) t.shared := by
    intro k
    induction k with
    | zero =>
      refine ⟨_, .start ⟨n + 1, rfl⟩, List.replicate_succ', ?_⟩
      exact ⟨rfl, rfl, rfl, rfl, rfl, rfl, rfl, rfl, Nat.one_ne_zero, fun _ h => by cases h⟩
    | succ k ih =>
      obtain ⟨t, ht, hcalls, hsame⟩ := ih
      obtain ⟨s', hrun, hsame'⟩ := hsame.addNode (flags k)
      have hidle : t.calls[n]? = some [] := by simp [hcalls]
      refine ⟨_, Program.reachable_runStack ht hidle hrun, ?_, hsame'⟩
      show t.calls.set n [] = _
      rw [Program.set_eq_of_getElem? hidle, hcalls]
  exact hnodes initSize

/-- **Every run of the pool is a run of a stack.** -/
theorem exists_stack {t : Threads Pool Frame} (h : (system flags initSize).Reachable t) :
    ∃ u, (LockFreeStack.system (T := Unit) (fun _ => ()) fun _ => 0).Reachable u ∧
      u.calls = t.calls.map (List.filterMap Frame.view) ++ [[]] ∧ Same t.shared u.shared :=
  simulates.reachable (exists_constructed flags initSize) h

/-! ## The counters -/

theorem construct_counts (flags : ℕ → Bool) (initSize : ℕ) :
    (construct flags initSize).totalNodeCnt + 1 =
      (construct flags initSize).fresh ∧ (construct flags initSize).useNodeCnt = 0 ∧
      (construct flags initSize).user = [] := by
  have hnodes : ∀ k, ((emptyPool initSize).addNodes flags k).totalNodeCnt + 1 =
      ((emptyPool initSize).addNodes flags k).fresh ∧
      ((emptyPool initSize).addNodes flags k).useNodeCnt = 0 ∧
      ((emptyPool initSize).addNodes flags k).user = [] := by
    intro k
    induction k with
    | zero => exact ⟨rfl, rfl, rfl⟩
    | succ k ih =>
      obtain ⟨htotal, huse, huser⟩ := ih
      refine ⟨?_, huse, huser⟩
      simp only [Pool.addNodes, Pool.addNode, Nat.cast_add, Nat.cast_one]
      omega
  exact hnodes initSize

/-- One for a node that `TotalNodeCnt` does not count yet. -/
def Frame.uncounted : Frame → ℕ
  | .incTotal => 1
  | _ => 0

/-- One for a block that `UseNodeCnt` still counts. -/
def Frame.overcounted : Frame → ℕ
  | .decUse => 1
  | _ => 0

theorem exec_counts (he : exec p f a = some (p', new)) :
    p'.fresh + f.uncounted - p'.totalNodeCnt =
        p.fresh + tally Frame.uncounted new - p.totalNodeCnt ∧
      p'.useNodeCnt - p'.user.length + f.overcounted =
        p.useNodeCnt - p.user.length + tally Frame.overcounted new := by
  rw [LockFreeMemoryPool.exec] at he
  split_ifs at he
  · cases he
    simp
  · revert he
    fun_cases stmt p f a <;> intro he <;> cases he <;>
      simp [Frame.uncounted, Frame.overcounted]
    all_goals omega

theorem call_counts (hc : call p a = some (p', new)) :
    p'.fresh = p.fresh ∧ p'.totalNodeCnt = p.totalNodeCnt ∧ tally Frame.uncounted new = 0 ∧
      p'.useNodeCnt - p'.user.length = p.useNodeCnt - p.user.length +
        tally Frame.overcounted new := by
  cases a with
  | alloc =>
    cases hc
    simp [Frame.uncounted, Frame.overcounted]
  | free node flag =>
    simp only [LockFreeMemoryPool.call, Option.ite_none_right_eq_some] at hc
    obtain ⟨hmem, hc⟩ := hc
    cases hc
    have hlen := List.length_erase_add_one hmem
    simp [Frame.uncounted, Frame.overcounted]
    omega
  | _ => cases hc

variable {t : Threads Pool Frame}

theorem total_eq (h : (system flags initSize).Reachable t) :
    (t.shared.fresh : ℤ) = t.shared.totalNodeCnt + 1 + tally Frame.uncounted t.frames := by
  have := Program.conserved (P := program) (fun p => p.fresh - p.totalNodeCnt) Frame.uncounted
    (fun p a old p' new hf => by
      cases hf with
      | call hc =>
        obtain ⟨h₁, h₂, h₃, -⟩ := call_counts hc
        simp only [h₁, h₂, h₃, tally_nil]
      | exec he =>
        have := (exec_counts he).1
        simp only [tally_cons, tally_nil]
        omega) h
  have := (construct_counts flags initSize).1
  omega

theorem use_eq (h : (system flags initSize).Reachable t) :
    t.shared.useNodeCnt = t.shared.user.length + tally Frame.overcounted t.frames := by
  have := Program.conserved (P := program) (fun p => p.useNodeCnt - p.user.length)
    Frame.overcounted (fun p a old p' new hf => by
      cases hf with
      | call hc =>
        have := (call_counts hc).2.2.2
        simp only [tally_nil]
        omega
      | exec he =>
        have := (exec_counts he).2
        simp only [tally_cons, tally_nil]
        omega) h
  obtain ⟨-, h₁, h₂⟩ := construct_counts flags initSize
  rw [h₁, h₂, List.length_nil] at this
  omega

/-! ## Runs -/

/-- A frame of the memory pool is one of the stack. -/
theorem view_mem {u : Threads (Stack Unit) (LockFreeStack.Frame Unit)}
    {g : LockFreeStack.Frame Unit}
    (hcalls : u.calls = t.calls.map (List.filterMap Frame.view) ++ [[]]) (hf : f ∈ t.frames)
    (hg : f.view = some g) : g ∈ u.frames := by
  obtain ⟨st, hst, hf⟩ := List.mem_flatten.1 hf
  refine List.mem_flatten.2 ⟨st.filterMap Frame.view, ?_, List.mem_filterMap.2 ⟨f, hf, hg⟩⟩
  rw [hcalls]
  exact List.mem_append_left _ (List.mem_map_of_mem hst)

theorem quiet_stack {u : Threads (Stack Unit) (LockFreeStack.Frame Unit)}
    (hcalls : u.calls = t.calls.map (List.filterMap Frame.view) ++ [[]]) (hq : t.Quiet) :
    u.frames = [] := by
  have hidle : ∀ st ∈ t.calls, st = [] := List.flatten_eq_nil_iff.1 hq
  rw [Threads.frames, hcalls, List.flatten_eq_nil_iff]
  intro st hst
  rcases List.mem_append.1 hst with hst | hst
  · obtain ⟨st, hmem, rfl⟩ := List.mem_map.1 hst
    rw [hidle st hmem]
    rfl
  · exact List.mem_singleton.1 hst

/-- A node is on the free list, with the users, or with a running call. -/
theorem exists_owned (h : (system flags initSize).Reachable t) (hnodup : t.shared.drawn.Nodup) :
    ∃ (u : Threads (Stack Unit) (LockFreeStack.Frame Unit)) (l : List ℕ),
      (LockFreeStack.system (fun _ => ()) fun _ => 0).Reachable u ∧
      u.calls = t.calls.map (List.filterMap Frame.view) ++ [[]] ∧ Same t.shared u.shared ∧
      LockFreeStack.Inv l u.shared u.frames ∧
      ∀ n, t.shared.user.count n + tally (LockFreeStack.Frame.holds n) u.frames + l.count n =
        if 0 < n ∧ n < t.shared.fresh then 1 else 0 := by
  obtain ⟨u, hu, hcalls, hsame⟩ := exists_stack h
  obtain ⟨l, hl⟩ := LockFreeStack.exists_inv hu (by rwa [hsame.drawn])
  have howned := hl.owned
  rw [hsame.pool, hsame.fresh] at howned
  exact ⟨u, l, hu, hcalls, hsame, hl, howned⟩

/-- The counters while no call is running. -/
theorem counts_of_quiet (h : (system flags initSize).Reachable t) (hnodup : t.shared.drawn.Nodup)
    (hq : t.Quiet) : ∃ l, Links 0 t.shared.next t.shared.headFreeNode.index l ∧
      t.shared.freeNodeCnt = l.length ∧
      t.shared.totalNodeCnt = t.shared.freeNodeCnt + t.shared.useNodeCnt := by
  obtain ⟨u, l, hu, hcalls, hsame, hl, howned⟩ := exists_owned h hnodup
  have hidle := quiet_stack hcalls hq
  have hfree : t.shared.freeNodeCnt = l.length := by
    have hsize := LockFreeStack.size_eq hu
    have hlen := hl.lifo.length
    rw [List.length_map] at hlen
    rw [hidle, tally_nil, tally_nil, tally_nil, hsame.size] at hsize
    omega
  have hperm : (t.shared.user ++ l).Perm (List.range' 1 (t.shared.fresh - 1)) := by
    refine List.perm_iff_count.2 fun n => ?_
    have := howned n
    rw [hidle, tally_nil] at this
    rw [List.count_append, List.count_range_1']
    split_ifs at this ⊢ <;> omega
  have hlen := hperm.length_eq
  rw [List.length_append, List.length_range'] at hlen
  have htotal := total_eq h
  have huse := use_eq h
  rw [show t.frames = [] from hq, tally_nil] at htotal huse
  have hpos := hsame.fresh_pos
  refine ⟨l, ?_, hfree, by omega⟩
  rw [← hsame.top, ← hsame.next]
  exact hl.chain

/-- **The pool hands out no block twice**, as long as `GetTagCnt` returns no tag twice: a block that
`Alloc` is about to return is not allocated, and no `PopFromFreeNode` that has passed the test of
`FreeNodeCnt` dereferences `nullptr`. When no call is running, `FreeNodeCnt` is the length of the
free list, and `TotalNodeCnt` the sum of `FreeNodeCnt` and `UseNodeCnt`. -/
theorem blocks_exclusive (h : (system flags initSize).Reachable t)
    (hnodup : t.shared.drawn.Nodup) :
    (t.shared.user.Nodup ∧ ∀ node, .incUse node ∈ t.frames → node ∉ t.shared.user) ∧
      (∀ newTop oldTop, .readNext newTop oldTop ∈ t.frames → oldTop.index ≠ 0) ∧
      t.shared.fault = false ∧
      (t.Quiet → ∃ l, Links 0 t.shared.next t.shared.headFreeNode.index l ∧
        t.shared.freeNodeCnt = l.length ∧
        t.shared.totalNodeCnt = t.shared.freeNodeCnt + t.shared.useNodeCnt) := by
  obtain ⟨u, l, -, hcalls, hsame, hl, howned⟩ := exists_owned h hnodup
  have hle : ∀ n, t.shared.user.count n + tally (LockFreeStack.Frame.holds n) u.frames ≤ 1 := by
    intro n
    have := howned n
    split_ifs at this <;> omega
  refine ⟨⟨List.nodup_iff_count_le_one.2 fun n => ?_, fun node hf hmem => ?_⟩,
    fun newTop oldTop hf => ?_, ?_, counts_of_quiet h hnodup⟩
  · exact (Nat.le_add_right _ _).trans (hle n)
  · have hholds := le_tally_of_mem (w := LockFreeStack.Frame.holds node)
      (view_mem hcalls hf (g := .readData node ()) rfl)
    have hone : LockFreeStack.Frame.holds node (.readData node () : LockFreeStack.Frame Unit) = 1 :=
      if_pos (.inr rfl)
    have hcount := List.count_pos_iff.2 hmem
    have := hle node
    omega
  · exact hl.frame _ (view_mem hcalls hf (g := .readNext newTop oldTop) rfl)
  · rw [← hsame.fault]
    exact hl.fault

/-- A thread allocates a block while there is one. -/
def allocating (i : ℕ) : List (ℕ × Act) := (i, .alloc) :: List.replicate 6 (i, .next)

/-- Two threads ask for a block, of which there is one: one gets it, the other makes the pool grow.
The first block is freed and allocated again. -/
theorem blocks_exclusive_grow :
    ∃ t, (system (fun _ => true) 1).Reachable t ∧ t.Quiet ∧ t.shared.user = [1, 2] ∧
      t.shared.totalNodeCnt = 2 ∧ t.shared.freeNodeCnt + t.shared.useNodeCnt = 2 := by
  obtain ⟨t, ht, hp⟩ := Lts.exists_reachable_of_run (M := system (fun _ => true) 1) ⟨2, rfl⟩
    (allocating 0 ++ (1, .alloc) :: List.replicate 4 (1, .next) ++ (1, .new false) ::
      List.replicate 13 (1, .next) ++ (0, .free 1 false) :: List.replicate 6 (0, .next) ++
      allocating 0)
    (p := fun t => decide (t.Quiet ∧ t.shared.user = [1, 2] ∧ t.shared.totalNodeCnt = 2 ∧
      t.shared.drawn.Nodup))
    (by decide +kernel)
  obtain ⟨hq, huser, htotal, hnodup⟩ := of_decide_eq_true hp
  obtain ⟨-, -, -, hquiet⟩ := blocks_exclusive ht hnodup
  obtain ⟨l, -, -, hsum⟩ := hquiet hq
  exact ⟨t, ht, hq, huser, htotal, hsum.symm.trans htotal⟩

end NetworkLibrary.LockFreeMemoryPool
