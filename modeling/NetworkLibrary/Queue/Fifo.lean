import NetworkLibrary.Queue.Chain

/-!
# `LockFreeQueue` is a queue

Every statement keeps `Inv` (`Inv.exec`), under two conditions on the state it is executed in: a
help that moves `Tail` moves it to the link of `OldTail` (`helpsAlong`), and no node is freed while
an `Enqueue` that has passed its test on it has the compare-and-swap on it ahead (`freesUnheld`).
In the runs that meet both the queue is a queue (`fifo`). The code guarantees neither:

* `Next = Tail->Next` reads `Tail` once more, so that `Next` may come from another node than
  `OldTail`, and a `Tail` that was moved by a help has no tag (`exists_tail_off_chain`);
* a thread that has taken the last reference of a node may look at its `DeleteFlag` when the node
  has been freed and enqueued once more (`exists_tail_null`).
-/

namespace NetworkLibrary.LockFreeQueue

open Foundations

variable {T : Type*} {w : View} {q q' : Queue T} {f : Frame T} {a : Act T} {new : List (Frame T)}
  {fs pre post : List (Frame T)}

attribute [local simp] Frame.newNode Frame.releasing Frame.builds Frame.releases Frame.Sound

/-! ## One step -/

/-- No running call is about to dereference `nullptr`. -/
theorem Inv.deref_ne (h : Inv w q fs) (hf : f ∈ fs) : f.deref ≠ some 0 := by
  have hs := h.frame f hf
  have hn := fun n hn => (h.newNode hf (n := n) hn).1
  cases f <;> simp_all [Frame.deref]
  exact h.ne_zero hs.2.mem

/-- While a `Dequeue` is in its loop, `Tail` is not at the node of `Head`. -/
theorem Inv.front_ne_nil (h : Inv w q fs)
    (hsize : (q.linked.length - q.dequeued.length - q.size : ℤ) =
      (tally Frame.unsized fs + tally Frame.loops fs + tally Frame.undoes fs : ℕ))
    (hnonneg : 0 ≤ q.size + tally Frame.undoes fs) (hf : f ∈ fs) (hloops : f.loops = 1) :
    w.front ≠ [] := by
  intro hfront
  have hlen := congrArg List.length h.values
  simp [View.chain, hfront] at hlen
  have hl : f.loops ≤ tally Frame.loops fs := le_tally_of_mem hf
  have hlag := h.lag
  rcases Nat.eq_zero_or_pos w.lag.length with h0 | hpos
  · omega
  · obtain ⟨x, hx⟩ := h.late (List.ne_nil_of_length_pos hpos)
    have hu := le_tally_of_mem (w := Frame.unsized) hx
    simp only [Frame.unsized] at hu
    omega

theorem Inv.head_ne_tail (h : Inv w q fs) (hfront : w.front ≠ []) :
    q.head.index ≠ q.tail.index := by
  obtain ⟨n, front, hw⟩ := List.exists_cons_of_ne_nil hfront
  have hc := h.chain
  rw [View.chain, hw, List.cons_append, links_cons] at hc
  intro heq
  have hle := h.count_le n
  rw [View.chain, hw, ← heq, hc.1] at hle
  simp at hle
  omega

theorem Inv.link_head_ne_zero (h : Inv w q fs) (hfront : w.front ≠ []) :
    q.link q.head.index ≠ 0 := by
  obtain ⟨n, front, hw⟩ := List.exists_cons_of_ne_nil hfront
  have hc := h.chain
  rw [View.chain, hw, List.cons_append, links_cons] at hc
  rw [hc.1]
  exact h.link_ne_zero (.inl (by simp [hw]))

/-- **One statement keeps the invariant**, if the helper of `Enqueue` moves `Tail` along the chain
and no node is freed that an `Enqueue` relies on. -/
theorem Inv.exec (h : Inv w q (pre ++ [f] ++ post)) (hfront : f.loops = 1 → w.front ≠ [])
    (htags : ∀ x : Tagged, f.own = some x.tag → ∀ f' ∈ pre ++ post, ∀ y, f'.curHead = some y →
      y ≠ x)
    (hhelp : ∀ v x oldTail next, f = .help v x oldTail next → q.tail = oldTail →
      next.index = q.link oldTail.index)
    (hfree : ∀ n, f = .freeNode n → ∀ f' ∈ pre ++ post, ∀ x, f'.relies = some x → x.index ≠ n)
    (he : exec q f a = some (q', new)) : ∃ w', Inv w' q' (pre ++ new ++ post) := by
  rw [LockFreeQueue.exec, if_neg (h.deref_ne (by simp))] at he
  have hf := h.frame f (by simp)
  have hquiet : ∀ {new : List (Frame T)} {size : ℤ} {tagCnt : ℕ} {refCnt : ℕ → ℤ}
      {returned : List T}, (∀ n, tally (Frame.builds n) new = f.builds n) →
      (∀ n, tally (Frame.releases n) new = f.releases n) → (∀ x, f ≠ .casTail x q.tail) →
      (∀ f' ∈ new, f'.Sound w q) → ∃ w', Inv w'
        { q with size := size, tagCnt := tagCnt, refCnt := refCnt, returned := returned }
        (pre ++ new ++ post) :=
    fun hb hr hlate hsound => ⟨w, h.keep (by simp [hb]) (by simp [hr])
      (by simpa [eq_comm] using hlate) hsound⟩
  cases f with
  | allocNode v =>
    cases a with
    | fresh flag =>
      cases he
      exact ⟨w, h.allocFresh⟩
    | reuse n flag =>
      simp only [stmt, Option.ite_none_right_eq_some] at he
      obtain ⟨hn, he⟩ := he
      cases he
      exact ⟨w, h.allocReuse hn⟩
    | _ => cases he
  | setData v x =>
    cases he
    exact ⟨w, h.build rfl rfl ⟨rfl, rfl⟩ (fun m hm => ⟨Function.update_of_ne hm _ _, rfl⟩)
      (by simp)⟩
  | setNext v x =>
    cases he
    exact ⟨w, h.build rfl rfl ⟨rfl, rfl⟩ (fun m hm => ⟨rfl, Function.update_of_ne hm _ _⟩)
      (by simpa [Queue.Built] using hf)⟩
  | incNew v x | tagNew v x | incOld v x oldTail =>
    cases he
    exact hquiet (by simp) (by simp) (by simp) (by simpa [Queue.Built] using hf)
  | readTail v x =>
    cases he
    exact hquiet (by simp) (by simp) (by simp) (by simpa using ⟨hf, h.tail_ne_zero⟩)
  | readTailAgain v x oldTail =>
    cases he
    exact hquiet (by simp) (by simp) (by simp) (by simpa using ⟨hf.1, hf.2, h.tail_ne_zero⟩)
  | readNext v x oldTail tail =>
    cases he
    refine hquiet (by simp) (by simp) (by simp) ?_
    simpa [Tagged.setPtr, Tagged.zero] using ⟨hf.1, hf.2.1⟩
  | testTail v x oldTail next =>
    simp only [stmt] at he
    split_ifs at he with htail hnext <;> cases he
    · refine hquiet (by simp) (by simp) (by simp) ?_
      simpa using ⟨hf.1, .inl htail⟩
    · refine hquiet (by simp) (by simp) (by simp) ?_
      simpa using ⟨hf.1, hf.2.1, hf.2.2 hnext⟩
    · refine hquiet (by simp) (by simp) (by simp) ?_
      simpa using ⟨hf.2.1, hf.1⟩
  | casNext v x oldTail =>
    simp only [stmt] at he
    split_ifs at he with hcas <;> cases he
    · exact ⟨_, h.link hcas⟩
    · refine hquiet (by simp) (by simp) (by simp) ?_
      simpa using ⟨h.ne_zero hf.2.mem, hf.1⟩
  | casTail x oldTail =>
    obtain ⟨hpassed, hlink, hne⟩ := hf
    simp only [stmt] at he
    split_ifs at he with hcas <;> cases he
    · subst hcas
      refine ⟨_, h.moveTail hlink.symm hne (by simp) (by simp) ?_⟩
      simpa using h.tail_ne_zero
    · refine hquiet (by simp) (by simp) (by simp [Ne.symm hcas]) ?_
      simpa using h.ne_zero hpassed.mem
  | help v x oldTail next =>
    obtain ⟨hbuilt, hold, hne⟩ := hf
    simp only [stmt] at he
    split_ifs at he with hcas <;> cases he
    · have hnext := hhelp v x oldTail next rfl hcas
      subst hcas
      refine ⟨_, h.moveTail hnext hne (by simp) (by simp) ?_⟩
      simpa using ⟨hold, hbuilt⟩
    · refine hquiet (by simp) (by simp) (by simp) ?_
      simpa using ⟨hold, hbuilt⟩
  | decRef n =>
    simp only [stmt] at he
    split_ifs at he <;> cases he
    · exact hquiet (by simp) (by simp) (by simp) (by simpa using hf)
    · exact hquiet (by simp) (by simp) (by simp) (by simp)
  | takeFlag n =>
    simp only [stmt] at he
    split_ifs at he with hflag <;> cases he
    · exact ⟨w, h.takeFlag hflag⟩
    · rw [Function.update_eq_self_iff.2 (by simpa using hflag)]
      exact hquiet (by simp) (by simp) (by simp) (by simp)
  | freeNode n =>
    cases he
    exact ⟨_, h.freeNode (hfree n rfl)⟩
  | incSize | undoSize | tagNext | ret v =>
    cases he
    exact hquiet (by simp) (by simp) (by simp) (by simp)
  | decSize =>
    simp only [stmt] at he
    split_ifs at he <;> cases he
    · exact hquiet (by simp) (by simp) (by simp) (by simp)
    · exact hquiet (by simp) (by simp) (by simp) (by simp)
  | readHead next =>
    cases he
    exact hquiet (by simp) (by simp) (by simp) (by simpa using h.ne_zero (.inl h.head_mem))
  | readCurTail next curHead =>
    cases he
    refine hquiet (by simp) (by simp) (by simp) ?_
    simpa using ⟨hf, fun heq => heq ▸ h.head_ne_tail (hfront rfl)⟩
  | readHeadNext next curHead curTail =>
    cases he
    refine hquiet (by simp) (by simp) (by simp) ?_
    simpa [Tagged.setPtr] using fun heq => ⟨hf.2 heq, heq ▸ h.link_head_ne_zero (hfront rfl)⟩
  | testHead next curHead curTail =>
    simp only [stmt] at he
    split_ifs at he with hhead hptr <;> cases he
    · exact absurd hptr (hf hhead).1
    · refine hquiet (by simp) (by simp) (by simp) ?_
      simpa using ⟨(hf hhead).2.2, fun heq => (hf heq).2.1⟩
    · exact hquiet (by simp) (by simp) (by simp) (by simp)
  | moveTail next curTail => exact hf.elim
  | readData next curHead =>
    cases he
    refine hquiet (by simp) (by simp) (by simp) ?_
    simpa using hf
  | casHead next curHead v =>
    simp only [stmt] at he
    split_ifs at he with hcas <;> cases he
    · subst hcas
      exact h.moveHead (hfront rfl) (htags next rfl)
    · exact hquiet (by simp) (by simp) (by simp) (by simp)
  | setFlag n =>
    cases he
    exact ⟨w, h.setFlag⟩

theorem Inv.call (h : Inv w q (pre ++ [] ++ post)) (hc : call q a = some (q', new)) :
    Inv w q' (pre ++ new ++ post) := by
  revert hc
  fun_cases LockFreeQueue.call q a <;> intro hc <;> cases hc
  · exact h.keep (by simp) (by simp) (by simp) (by simp)
  · exact h.keep (by simp) (by simp) (by simp) (by simp)

/-! ## Runs -/

/-- The helper of `Enqueue` moves `Tail` to the link of `OldTail`, if it moves it. -/
def helpsAlong (t : Threads (Queue T) (Frame T)) : Frame T → Bool
  | .help _ _ oldTail next => t.shared.tail ≠ oldTail || next.index = t.shared.link oldTail.index
  | _ => true

/-- No node is freed while an `Enqueue` that has passed its test on it has the compare-and-swap on
it ahead. -/
def freesUnheld (t : Threads (Queue T) (Frame T)) : Frame T → Bool
  | .freeNode n => t.frames.all fun f => f.relies.map Tagged.index ≠ some n
  | _ => true

/-- The steps on which the queue depends. -/
def Guarded (t : Threads (Queue T) (Frame T)) (f : Frame T) (_ : Act T) : Prop :=
  helpsAlong t f = true ∧ freesUnheld t f = true

variable {t u : Threads (Queue T) (Frame T)}

theorem exists_inv [Inhabited T] (h : (system T).ReachableVia (Program.Steps Guarded) t)
    (hcnt : t.shared.tagCnt < 2 ^ 16) : ∃ w, Inv w t.shared t.frames := by
  refine h.invariant₂ (J := fun t => (system T).ReachableVia (Program.Steps Guarded) t)
    (I := fun t => t.shared.tagCnt < 2 ^ 16 → ∃ w, Inv w t.shared t.frames) id ?_ ?_ hcnt
  · rintro _ ⟨n, rfl⟩ -
    refine ⟨⟨[], [], []⟩, ?_⟩
    rw [Threads.frames_idle]
    refine ⟨?_, ?_, ?_, ?_, ?_, ?_, ?_, ?_, ?_⟩ <;>
      simp [initQueue, View.chain, Queue.link, Tagged.setPtr, Tagged.zero]
    grind
  · intro s l t hs _ ih hok hst hcnt
    have hcnt' := (step_tagCnt hst).trans_lt hcnt
    obtain ⟨w, hw⟩ := ih hcnt'
    obtain ⟨pre, old, new, post, hfs, hft, hf, htop⟩ := Program.step_frames hst
    rw [hfs] at hw
    rw [hft]
    cases hf with
    | call hc => exact ⟨w, hw.call hc⟩
    | exec he =>
      rename_i f
      obtain ⟨hhelp, hfree⟩ := hok f (htop f rfl)
      refine hw.exec (hw.front_ne_nil ?_ ?_ (by simp)) ?_ ?_ ?_ he
      · rw [← hfs]
        exact size_eq hs
      · rw [← hfs]
        exact size_nonneg hs
      · intro x hx f' hf' y hy
        have hpos : 0 < tally (Frame.owns x.tag) s.frames :=
          lt_of_lt_of_le (by simp [Frame.owns, hx])
            (le_tally_of_mem (f := f) (by rw [hfs]; simp))
        rintro rfl
        refine ((tags hs hcnt').unread _ hpos).2 f' ?_ y hy rfl
        rw [hfs]
        simp only [List.mem_append] at hf' ⊢
        tauto
      · rintro v x oldTail next rfl htail
        simpa [helpsAlong, htail] using hhelp
      · rintro n rfl f' hf' x hx hn
        simp only [freesUnheld, List.all_eq_true, hfs, List.mem_append] at hfree hf'
        simpa [hx, hn] using hfree f' (by tauto)

/-- **`LockFreeQueue` is a queue** in the runs whose steps meet `Guarded`, while fewer than 2^16
tags are drawn: `Tail` is on the chain from `Head`, no `nullptr` is dereferenced, the values
dequeued are the first ones linked, in this order, and the chain holds the others, no value is
returned more often than it was enqueued, and when no call is running the values that were not
returned are those on the chain after `Head`. -/
theorem fifo [Inhabited T] (h : (system T).ReachableVia (Program.Steps Guarded) t)
    (hcnt : t.shared.tagCnt < 2 ^ 16) :
    ∃ l, Links 0 t.shared.link t.shared.head.index l ∧ t.shared.tail.index ∈ l ∧
      t.shared.fault = false ∧
      t.shared.linked = t.shared.dequeued ++ l.tail.map t.shared.data ∧
      t.shared.returned.Subperm t.shared.dequeued ∧ t.shared.returned.Subperm t.shared.called ∧
      (t.Quiet → t.shared.called.Perm (t.shared.returned ++ l.tail.map t.shared.data)) := by
  classical
  obtain ⟨w, hw⟩ := exists_inv h hcnt
  have hcalled := called_count h
  have hdequeued := dequeued_count h
  refine ⟨w.chain t.shared, hw.chain, View.mem_chain.2 (.inr (.inl rfl)), hw.fault, hw.values,
    List.subperm_ext_iff.2 fun v _ => ?_, List.subperm_ext_iff.2 fun v _ => ?_, fun hq => ?_⟩
  · rw [hdequeued]
    omega
  · have hv := congrArg (List.count v) hw.values
    rw [List.count_append, hdequeued] at hv
    rw [hcalled]
    omega
  · rw [List.perm_iff_count]
    intro v
    have hv := congrArg (List.count v) hw.values
    rw [List.count_append, hdequeued, show t.frames = [] from hq, tally_nil] at hv
    rw [hcalled, show t.frames = [] from hq, tally_nil, List.count_append]
    omega

/-- `Guarded`, decided. -/
def guarded (t : Threads (Queue T) (Frame T)) (l : ℕ × Act T) : Bool :=
  (t.top l.1).all fun f => helpsAlong t f && freesUnheld t f

theorem steps_guarded (t : Threads (Queue T) (Frame T)) (l : ℕ × Act T)
    (h : guarded t l = true) : Program.Steps Guarded t l := by
  intro f hf
  simpa [guarded, Guarded, hf] using h

/-- A thread calls `Enqueue` and gets a new node. -/
def enqueuing (i data : ℕ) : List (ℕ × Act ℕ) := [(i, .enqueue data), (i, .fresh false)]

/-- A thread executes a number of statements. -/
def going (i n : ℕ) : List (ℕ × Act ℕ) := List.replicate n (i, .next)

/-- Two calls of `Enqueue`, the second one helping the first, and then a `Dequeue`. -/
theorem fifo_two :
    ∃ t, (system ℕ).ReachableVia (Program.Steps Guarded) t ∧ t.Quiet ∧ t.shared.returned = [10] ∧
      ∃ l, Links 0 t.shared.link t.shared.head.index l ∧ t.shared.tail.index ∈ l ∧
        t.shared.called.Perm (t.shared.returned ++ l.tail.map t.shared.data) := by
  obtain ⟨t, ht, hp⟩ := Lts.exists_reachableVia_of_run (M := system ℕ) steps_guarded ⟨2, rfl⟩
    (enqueuing 0 10 ++ going 0 10 ++ enqueuing 1 20 ++ going 1 20 ++ going 0 3 ++ [(0, .dequeue)] ++
      going 0 13)
    (p := fun t => decide (t.Quiet ∧ t.shared.returned = [10] ∧ t.shared.tagCnt = 3))
    (by decide +kernel)
  obtain ⟨hq, hret, hcnt⟩ := of_decide_eq_true hp
  obtain ⟨l, hl, htail, -, -, -, -, hperm⟩ := fifo ht (by omega)
  exact ⟨t, ht, hq, hret, l, hl, htail, hperm hq⟩

/-! ## The runs in which it is not -/

/-- The first `Enqueue` reads `Tail` twice, at different nodes, and passes its test when `Tail` is
at the old node again, which has been freed and enqueued once more; its help then moves `Tail` to a
node that has been dequeued. -/
def staleNext : List (ℕ × Act ℕ) :=
  enqueuing 0 10 ++ going 0 5 ++ enqueuing 1 20 ++ going 1 13 ++ [(1, .dequeue)] ++ going 1 13 ++
    enqueuing 1 30 ++ going 1 10 ++ going 0 3 ++ going 1 3 ++
    [(1, .enqueue 40), (1, .reuse 1 false)] ++ going 1 10 ++ enqueuing 2 50 ++ going 2 11 ++
    going 1 3 ++ [(1, .dequeue)] ++ going 1 13 ++ [(1, .dequeue)] ++ going 1 13 ++ going 0 2

/-- **`Tail` leaves the chain** when an `Enqueue` helps with a `Next` that it has read from another
node than `OldTail`. -/
theorem exists_tail_off_chain :
    ¬∀ t, (system ℕ).Reachable t → t.shared.tagCnt < 2 ^ 16 →
      ∃ l, Links 0 t.shared.link t.shared.head.index l ∧ t.shared.tail.index ∈ l := by
  intro hall
  obtain ⟨t, ht, hp⟩ := Lts.exists_reachable_of_run (M := system ℕ) ⟨3, rfl⟩ staleNext
    (p := fun t => decide (t.shared.tagCnt = 8 ∧ Links 0 t.shared.link t.shared.head.index [1] ∧
      t.shared.tail.index = 4)) (by decide +kernel)
  obtain ⟨hcnt, hl, htail⟩ := of_decide_eq_true hp
  obtain ⟨l, hl', hmem⟩ := hall t ht (by omega)
  rw [← hl.unique hl', htail] at hmem
  simp at hmem

/-- The first `Enqueue` takes the last reference of a node that has been dequeued, and the second
one frees the node; it is enqueued and dequeued again while the fourth thread holds it, and then
the first thread sees its flag and frees it once more. -/
def lateFlag : List (ℕ × Act ℕ) :=
  enqueuing 0 10 ++ going 0 6 ++ enqueuing 1 11 ++ going 1 5 ++ enqueuing 2 20 ++ going 2 13 ++
    [(2, .dequeue)] ++ going 2 11 ++ going 0 4 ++ going 1 7 ++
    [(2, .enqueue 30), (2, .reuse 1 false)] ++ going 2 13 ++ enqueuing 3 40 ++ going 3 9 ++
    enqueuing 2 50 ++ going 2 13 ++ [(2, .dequeue)] ++ going 2 13 ++ [(2, .dequeue)] ++
    going 2 11 ++ going 0 2 ++ [(2, .enqueue 60), (2, .reuse 1 false)] ++ going 2 3 ++ going 3 4 ++
    [(4, .dequeue)] ++ going 4 7

theorem steps_helpsAlong (t : Threads (Queue T) (Frame T)) (l : ℕ × Act T)
    (h : (t.top l.1).all (helpsAlong t) = true) :
    Program.Steps (fun t f _ => helpsAlong t f = true) t l := by
  intro f hf
  simpa [hf] using h

/-- **`Tail` becomes null** when a node is freed that an `Enqueue` relies on, although every help
moves `Tail` along the chain. -/
theorem exists_tail_null :
    ∃ t, (system ℕ).ReachableVia (Program.Steps fun t f _ => helpsAlong t f = true) t ∧
      t.shared.tagCnt < 2 ^ 16 ∧ t.shared.tail.index = 0 := by
  obtain ⟨t, ht, hp⟩ := Lts.exists_reachableVia_of_run (M := system ℕ)
    steps_helpsAlong ⟨5, rfl⟩ lateFlag
    (p := fun t => decide (t.shared.tagCnt = 10 ∧ t.shared.tail.index = 0)) (by decide +kernel)
  obtain ⟨hcnt, htail⟩ := of_decide_eq_true hp
  exact ⟨t, ht, by omega, htail⟩

end NetworkLibrary.LockFreeQueue
