import NetworkLibrary.Foundations.Links
import NetworkLibrary.Queue.Tags

/-!
# The chain of `LockFreeQueue`

The nodes of a queue are the chain from `Head`, which `Tail` divides (`View.front`, the node of
`Tail`, and at most one node after it, `View.lag`), the nodes that were dequeued and not freed yet
(`View.retired`), those in the pool and those that an `Enqueue` is building. `Inv` says that every
node is at one of these places, and what each running call knows about the nodes it holds:

* an `Enqueue` past its test holds a node that `Tail` is at or has passed (`View.Passed`), so that
  linking behind it, or moving `Tail` from it, is an operation on the end of the chain;
* a `Dequeue` knows the node after `Head` as long as `Head` is what it has read.

Each kind of step keeps `Inv`; the first holds only until the node is freed, and the step of the
helper moves `Tail` along the chain only if its `Next` is the link of `OldTail`.
-/

namespace NetworkLibrary.LockFreeQueue

open Foundations

variable {T : Type*}

/-! ## The places of the nodes -/

/-- The nodes of the chain before that of `Tail` and after it, and the nodes that were dequeued and
not freed yet. -/
structure View where
  front : List ℕ
  lag : List ℕ
  retired : List ℕ

/-- The chain. -/
def View.chain (w : View) (q : Queue T) : List ℕ := w.front ++ q.tail.index :: w.lag

/-- `Tail` is at a node or has passed it, and the node was not freed since. -/
def View.Passed (w : View) (q : Queue T) (x : Tagged) : Prop :=
  x = q.tail ∨ x.index ∈ w.front ∨ x.index ∈ w.retired

/-- The node that an `Enqueue` has not linked yet. -/
def Frame.newNode : Frame T → Option ℕ
  | .setData _ x | .setNext _ x | .incNew _ x | .tagNew _ x | .readTail _ x => some x.index
  | .incOld _ x _ | .readTailAgain _ x _ | .readNext _ x _ _ | .testTail _ x _ _ => some x.index
  | .casNext _ x _ | .help _ x _ _ => some x.index
  | _ => none

/-- The node that a frame will free or mark for freeing. -/
def Frame.releasing : Frame T → Option ℕ
  | .setFlag n | .freeNode n => some n
  | _ => none

/-- `OldTail` of an `Enqueue` that has passed its test and has its compare-and-swap on it ahead. -/
def Frame.relies : Frame T → Option Tagged
  | .casNext _ _ oldTail | .casTail _ oldTail => some oldTail
  | _ => none

/-- One for the frames that build a node. -/
def Frame.builds (n : ℕ) (f : Frame T) : ℕ := if f.newNode = some n then 1 else 0

/-- One for the frames that release a node. -/
def Frame.releases (n : ℕ) (f : Frame T) : ℕ := if f.releasing = some n then 1 else 0

/-! ## What the running calls know -/

/-- A node that is ready to be linked. -/
def Queue.Built (q : Queue T) (v : T) (newNode : Tagged) : Prop :=
  q.data newNode.index = v ∧ q.next newNode.index = .zero

/-- What a frame knows about the nodes it holds. -/
def Frame.Sound (w : View) (q : Queue T) : Frame T → Prop
  | .setNext v x => q.data x.index = v
  | .incNew v x | .tagNew v x | .readTail v x => q.Built v x
  | .incOld v x oldTail | .readTailAgain v x oldTail => q.Built v x ∧ oldTail.index ≠ 0
  | .readNext v x oldTail tail => q.Built v x ∧ oldTail.index ≠ 0 ∧ tail ≠ 0
  | .testTail v x oldTail next =>
    q.Built v x ∧ oldTail.index ≠ 0 ∧ (next ≠ .zero → next.index ≠ 0)
  | .casNext v x oldTail => q.Built v x ∧ w.Passed q oldTail
  | .casTail x oldTail => w.Passed q oldTail ∧ q.link oldTail.index = x.index ∧ x.index ≠ 0
  | .help v x oldTail next => q.Built v x ∧ oldTail.index ≠ 0 ∧ next.index ≠ 0
  | .decRef n | .takeFlag n | .freeNode n | .setFlag n => n ≠ 0
  | .readCurTail _ curHead => curHead.index ≠ 0
  | .readHeadNext _ curHead curTail =>
    curHead.index ≠ 0 ∧ (curHead = q.head → curHead.index ≠ curTail.index)
  | .testHead next curHead curTail =>
    curHead = q.head → curHead.index ≠ curTail.index ∧ next.index = q.link curHead.index ∧
      next.index ≠ 0
  | .moveTail _ _ => False
  | .readData next curHead =>
    next.index ≠ 0 ∧ (curHead = q.head → next.index = q.link curHead.index)
  | .casHead next curHead tData =>
    next.index ≠ 0 ∧
      (curHead = q.head → next.index = q.link curHead.index ∧ tData = q.data next.index)
  | _ => True

attribute [local simp] Frame.newNode Frame.releasing Frame.builds Frame.releases Frame.Sound

variable {w w' : View} {q q' : Queue T} {f g : Frame T} {a : Act T} {new : List (Frame T)}

/-- A frame still knows what it knew when its new node, the nodes `Tail` has passed and the node
after `Head` are as they were. -/
theorem Frame.Sound.transfer (h : f.Sound w q)
    (hnew : ∀ n, f.newNode = some n → q'.data n = q.data n ∧ q'.next n = q.next n)
    (hold : ∀ x, f.relies = some x → w.Passed q x →
      w'.Passed q' x ∧ (q.link x.index ≠ 0 → q'.link x.index = q.link x.index))
    (hhead : ∀ x, f.curHead = some x → x = q'.head → x = q.head ∧ (q.link x.index ≠ 0 →
      q'.link x.index = q.link x.index ∧
        q'.data (q.link x.index) = q.data (q.link x.index))) : f.Sound w' q' := by
  cases f <;> simp_all [Frame.relies, Frame.curHead, Queue.Built]
  all_goals grind

/-! ## The invariant -/

/-- Every node is at one place, and every running call is sound. -/
structure Inv (w : View) (q : Queue T) (fs : List (Frame T)) : Prop where
  chain : Links 0 q.link q.head.index (w.chain q)
  lag : w.lag.length ≤ 1
  late : w.lag ≠ [] → ∃ x, .casTail x q.tail ∈ fs
  owned : ∀ n, q.pool.count n + tally (Frame.builds n) fs + (w.chain q).count n +
    w.retired.count n = if 0 < n ∧ n < q.fresh then 1 else 0
  retired : ∀ n, w.retired.count n =
    tally (Frame.releases n) fs + if q.deleteFlag n = true then 1 else 0
  behind : ∀ n ∈ w.retired, q.link n ≠ 0
  values : q.linked = q.dequeued ++ (w.chain q).tail.map q.data
  frame : ∀ f ∈ fs, f.Sound w q
  fault : q.fault = false

variable {fs pre post : List (Frame T)} {n : ℕ}

theorem View.mem_chain : n ∈ w.chain q ↔ n ∈ w.front ∨ n = q.tail.index ∨ n ∈ w.lag := by
  simp [View.chain]

/-- The whereabouts of a node, as numbers that add up to at most 1. -/
theorem Inv.count_le (h : Inv w q fs) (n : ℕ) :
    q.pool.count n + tally (Frame.builds n) fs + (w.chain q).count n + w.retired.count n ≤ 1 := by
  rw [h.owned]
  split <;> omega

theorem Inv.ne_zero (h : Inv w q fs) (hn : n ∈ w.chain q ∨ n ∈ w.retired) : n ≠ 0 := by
  rintro rfl
  have h0 := h.owned 0
  simp only [lt_self_iff_false, false_and, if_false] at h0
  rcases hn with hn | hn
  · have := List.count_pos_iff.2 hn
    omega
  · have := List.count_pos_iff.2 hn
    omega

theorem Inv.head_mem (h : Inv w q fs) : q.head.index ∈ w.chain q := by
  have hc := h.chain
  rcases hl : w.chain q with _ | ⟨x, l⟩
  · simp [View.chain] at hl
  · rw [hl] at hc
    simp [hc.1]

theorem Inv.tail_ne_zero (h : Inv w q fs) : q.tail.index ≠ 0 :=
  h.ne_zero (.inl (View.mem_chain.2 (.inr (.inl rfl))))

theorem Inv.fresh_pos (h : Inv w q fs) : 0 < q.fresh := by
  have ht := h.owned q.tail.index
  have := List.count_pos_iff.2 (View.mem_chain.2 (.inr (.inl rfl)) : q.tail.index ∈ w.chain q)
  split at ht <;> omega

theorem View.Passed.mem {x : Tagged} (hp : w.Passed q x) :
    x.index ∈ w.chain q ∨ x.index ∈ w.retired := by
  rcases hp with rfl | hp | hp
  · exact .inl (View.mem_chain.2 (.inr (.inl rfl)))
  · exact .inl (View.mem_chain.2 (.inl hp))
  · exact .inr hp

/-- A node that is being built is nowhere else. -/
theorem Inv.newNode (h : Inv w q fs) (hf : f ∈ fs) (hn : f.newNode = some n) :
    n ≠ 0 ∧ n ∉ w.chain q ∧ n ∉ w.retired := by
  have hle := h.count_le n
  have hb : f.builds n ≤ tally (Frame.builds n) fs := le_tally_of_mem hf
  rw [Frame.builds, if_pos hn] at hb
  refine ⟨?_, fun hc => ?_, fun hc => ?_⟩
  · rintro rfl
    have h0 := h.owned 0
    simp only [lt_self_iff_false, false_and, if_false] at h0
    omega
  · have := List.count_pos_iff.2 hc
    omega
  · have := List.count_pos_iff.2 hc
    omega

/-- Nobody else builds it. -/
theorem Inv.newNode_rest (h : Inv w q (pre ++ [f] ++ post)) (hn : f.newNode = some n)
    (hg : g ∈ pre ++ post) : g.newNode ≠ some n := by
  intro hn'
  have hle := h.count_le n
  have := Program.add_le_tally (w := Frame.builds n) (rfl : pre ++ [f] ++ post = _) hg
  rw [tally_cons, tally_nil, Frame.builds, Frame.builds, if_pos hn, if_pos hn'] at this
  omega

/-- What `Tail` has passed has a link. -/
theorem Inv.link_ne_zero (h : Inv w q fs) (hn : n ∈ w.front ∨ n ∈ w.retired) : q.link n ≠ 0 := by
  rcases hn with hn | hn
  · exact h.chain.next_ne_nil n hn
  · exact h.behind n hn

/-! ## The steps that write no word of the chain -/

variable {old : List (Frame T)}

/-- A step that writes neither `Head`, `Tail` nor a node's value or link. What it does to the pool
and to the flags must go with what it does to the frames. -/
theorem Inv.keep (h : Inv w q (pre ++ old ++ post)) {size : ℤ} {tagCnt fresh : ℕ} {refCnt : ℕ → ℤ}
    {deleteFlag : ℕ → Bool} {pool : List ℕ} {called returned : List T}
    (hb : ∀ n, (pool.count n + tally (Frame.builds n) new +
        if 0 < n ∧ n < q.fresh then 1 else 0) =
      q.pool.count n + tally (Frame.builds n) old + if 0 < n ∧ n < fresh then 1 else 0)
    (hr : ∀ n, (tally (Frame.releases n) new + if deleteFlag n = true then 1 else 0) =
      tally (Frame.releases n) old + if q.deleteFlag n = true then 1 else 0)
    (hlate : ∀ x, .casTail x q.tail ∉ old) (hsound : ∀ f' ∈ new, f'.Sound w q) :
    Inv w
      { q with
        size := size, tagCnt := tagCnt, fresh := fresh, refCnt := refCnt, deleteFlag := deleteFlag,
        pool := pool, called := called, returned := returned }
      (pre ++ new ++ post) := by
  set q' : Queue T :=
    { q with
      size := size, tagCnt := tagCnt, fresh := fresh, refCnt := refCnt, deleteFlag := deleteFlag,
      pool := pool, called := called, returned := returned } with hq'
  have htrans : ∀ f' : Frame T, f'.Sound w q → f'.Sound w q' := fun f' hf' =>
    hf'.transfer (fun _ _ => ⟨rfl, rfl⟩) (fun _ _ hp => ⟨hp, fun _ => rfl⟩)
      (fun _ _ hx => ⟨hx, fun _ => ⟨rfl, rfl⟩⟩)
  refine ⟨h.chain, h.lag, fun hne => ?_, fun n => ?_, fun n => ?_, h.behind, h.values, ?_, h.fault⟩
  · obtain ⟨x, hx⟩ := h.late hne
    refine ⟨x, ?_⟩
    have := hlate x
    simp only [List.mem_append] at hx ⊢
    tauto
  · have h₁ := h.owned n
    have h₂ := hb n
    simp only [tally_append, View.chain, hq'] at h₁ ⊢
    omega
  · have h₁ := h.retired n
    have h₂ := hr n
    simp only [tally_append, hq'] at h₁ ⊢
    omega
  · exact Program.forall_frames_step rfl rfl h.frame (fun f' hf' => htrans f' (hsound f' hf'))
      fun f' _ hf' => htrans f' hf'

/-- A `Dequeue` marks its node for freeing. -/
theorem Inv.setFlag (h : Inv w q (pre ++ [.setFlag n] ++ post)) :
    Inv w { q with deleteFlag := Function.update q.deleteFlag n true }
      (pre ++ [.decRef n] ++ post) := by
  have hflag : q.deleteFlag n = false := by
    have h₁ := h.count_le n
    have h₂ := h.retired n
    by_contra hne
    rw [if_pos (by simpa using hne)] at h₂
    simp at h₂
    omega
  refine h.keep (by simp) (fun m => ?_) (by simp) ?_
  · rcases eq_or_ne m n with rfl | hmn
    · simp [hflag]
    · simp [hmn, hmn.symm]
  · simpa using h.frame (.setFlag n) (by simp)

/-- The mark is taken back by the thread that frees the node. -/
theorem Inv.takeFlag (h : Inv w q (pre ++ [.takeFlag n] ++ post)) (hflag : q.deleteFlag n = true) :
    Inv w { q with deleteFlag := Function.update q.deleteFlag n false }
      (pre ++ [.freeNode n] ++ post) := by
  refine h.keep (by simp) (fun m => ?_) (by simp) ?_
  · rcases eq_or_ne m n with rfl | hmn
    · simp [hflag]
    · simp [hmn, hmn.symm]
  · simpa using h.frame (.takeFlag n) (by simp)

/-! ## The building of a node -/

/-- `AllocNode` returns a new node. -/
theorem Inv.allocFresh {v : T} {flag : Bool} (h : Inv w q (pre ++ [.allocNode v] ++ post)) :
    Inv w { q with fresh := q.fresh + 1 } (pre ++ [.setData v ⟨q.fresh, flag, 0⟩] ++ post) := by
  refine h.keep (fun n => ?_) (by simp) (by simp)
    (by simp)
  have := h.fresh_pos
  simp
  grind

/-- `AllocNode` returns a freed node. -/
theorem Inv.allocReuse {v : T} {flag : Bool} (h : Inv w q (pre ++ [.allocNode v] ++ post))
    (hn : n ∈ q.pool) :
    Inv w { q with pool := q.pool.erase n } (pre ++ [.setData v ⟨n, flag, 0⟩] ++ post) := by
  refine h.keep (fun m => ?_) (by simp) (by simp)
    (by simp)
  have := List.count_pos_iff.2 hn
  rw [List.count_erase]
  simp
  grind

/-- An `Enqueue` writes a field of its new node. -/
theorem Inv.build (h : Inv w q (pre ++ [f] ++ post)) (hf : f.newNode = some n)
    (hg : g.newNode = some n) (hr : f.releasing = none ∧ g.releasing = none) {data : ℕ → T}
    {next : ℕ → Tagged} (heq : ∀ m, m ≠ n → data m = q.data m ∧ next m = q.next m)
    (hsound : g.Sound w { q with data := data, next := next }) :
    Inv w { q with data := data, next := next } (pre ++ [g] ++ post) := by
  obtain ⟨-, hchain, hretired⟩ := h.newNode (by simp) hf
  have hlink : ∀ m, m ∈ w.chain q ∨ m ∈ w.retired → (next m).index = q.link m := by
    intro m hm
    rw [(heq m (by rintro rfl; simp_all)).2, Queue.link]
  have hdata : ∀ m ∈ w.chain q, data m = q.data m :=
    fun m hm => (heq m fun h => hchain (h ▸ hm)).1
  refine ⟨h.chain.congr fun m hm => hlink m (.inl hm), h.lag, fun hne => ?_, fun m => ?_,
    fun m => ?_, fun m hm => ?_, ?_, ?_, h.fault⟩
  · obtain ⟨x, hx⟩ := h.late hne
    refine ⟨x, ?_⟩
    have : f ≠ .casTail x q.tail := by
      rintro rfl
      simp at hf
    simp only [List.mem_append, List.mem_singleton] at hx ⊢
    grind
  · rw [← h.owned m]
    simp only [tally_append, tally_cons, tally_nil, Frame.builds, hf, hg, View.chain]
  · rw [h.retired m]
    simp only [tally_append, tally_cons, tally_nil, Frame.releases, hr.1, hr.2]
  · rw [Queue.link, hlink m (.inr hm)]
    exact h.behind m hm
  · rw [h.values]
    congr 1
    exact List.map_congr_left fun m hm => (hdata m (List.mem_of_mem_tail hm)).symm
  · refine Program.forall_frames_step rfl rfl h.frame (by simpa using hsound) fun f' hf' hs => ?_
    refine hs.transfer (fun m hm => heq m ?_) (fun x _ hp => ⟨hp, fun _ => hlink _ hp.mem⟩)
      fun x _ hx => ⟨hx, fun hne => ?_⟩
    · rintro rfl
      exact h.newNode_rest hf hf' hm
    · subst hx
      exact ⟨hlink _ (.inl h.head_mem), hdata _ (h.chain.next_mem h.head_mem hne)⟩

/-! ## The end of the chain -/

/-- A node whose link is null and that `Tail` is at or has passed is the last of the chain, and
`Tail` is at it. -/
theorem Inv.at_tail {x : Tagged} (h : Inv w q fs) (hp : w.Passed q x) (hx : q.link x.index = 0) :
    x = q.tail ∧ w.lag = [] := by
  rcases hp with rfl | hp
  · exact ⟨rfl, h.chain.rest_eq_nil hx⟩
  · exact absurd hx (h.link_ne_zero hp)

/-- An `Enqueue` links its node. -/
theorem Inv.link {v : T} {x oldTail : Tagged} (h : Inv w q (pre ++ [.casNext v x oldTail] ++ post))
    (hcas : q.next oldTail.index = .zero) :
    Inv { w with lag := [x.index] }
      { q with next := Function.update q.next oldTail.index x, linked := q.linked ++ [v] }
      (pre ++ [.casTail x oldTail] ++ post) := by
  obtain ⟨⟨hdata, hnext⟩, hpassed⟩ := h.frame (.casNext v x oldTail) (by simp)
  obtain ⟨rfl, hlag⟩ := h.at_tail hpassed (by simp [Queue.link, hcas, Tagged.zero])
  obtain ⟨hne, hchain, hretired⟩ := h.newNode (f := .casNext v x q.tail) (by simp) rfl
  have hlink : ∀ m, q.link m ≠ 0 → (Function.update q.next q.tail.index x m).index = q.link m := by
    intro m hm
    rw [Function.update_of_ne, Queue.link]
    rintro rfl
    simp [Queue.link, hcas, Tagged.zero] at hm
  have hxt : x.index ≠ q.tail.index := fun h => hchain (h ▸ View.mem_chain.2 (.inr (.inl rfl)))
  have hw : w.chain q = w.front ++ [q.tail.index] := by rw [View.chain, hlag]
  refine ⟨?_, by simp, fun _ => ⟨x, by simp⟩, fun m => ?_, fun m => ?_, fun m hm => ?_, ?_, ?_,
    h.fault⟩
  · have hc := h.chain
    rw [hw] at hc
    refine hc.concat (by simp [Queue.link]) (fun m hm => hlink m (h.link_ne_zero (.inl hm))) hne ?_
    simp [Queue.link, Function.update_of_ne hxt, hnext, Tagged.zero]
  · rw [← h.owned m, hw]
    simp [View.chain, List.count_cons]
    omega
  · rw [h.retired m]
    simp
  · rw [Queue.link, hlink m (h.behind m hm)]
    exact h.behind m hm
  · simp only [View.chain, h.values, hlag]
    cases w.front <;> simp [hdata]
  · refine Program.forall_frames_step rfl rfl h.frame ?_ fun f' hf' hs => ?_
    · simp [View.Passed, Queue.link, hne]
    · refine hs.transfer (fun m hm => ⟨rfl, Function.update_of_ne ?_ _ _⟩)
        (fun y _ hp => ⟨hp, hlink _⟩) fun y _ hy => ⟨hy, fun hne => ⟨hlink _ hne, rfl⟩⟩
      rintro rfl
      refine (h.newNode (f := f') ?_ hm).2.1 (View.mem_chain.2 (.inr (.inl rfl)))
      simp only [List.mem_append] at hf' ⊢
      tauto

/-- An `Enqueue` moves `Tail` to the next node. -/
theorem Inv.moveTail {x : Tagged} (h : Inv w q (pre ++ [f] ++ post))
    (hx : x.index = q.link q.tail.index) (hne : x.index ≠ 0)
    (hb : ∀ n, tally (Frame.builds n) new = f.builds n)
    (hr : ∀ n, tally (Frame.releases n) new = f.releases n)
    (hsound : ∀ f' ∈ new, f'.Sound { w with front := w.front ++ [q.tail.index], lag := [] }
      { q with tail := x }) :
    Inv { w with front := w.front ++ [q.tail.index], lag := [] } { q with tail := x }
      (pre ++ new ++ post) := by
  have hlag : w.lag = [x.index] := by
    have hd := h.chain.drop
    have hle := h.lag
    rcases hl : w.lag with _ | ⟨y, _ | ⟨z, l⟩⟩
    · rw [hl, links_nil, ← hx] at hd
      exact absurd hd hne
    · rw [hl] at hd
      rw [hx, hd.1]
    · simp [hl] at hle
  have hw : w.chain q = w.front ++ [q.tail.index, x.index] := by rw [View.chain, hlag]
  have hw' : View.chain { w with front := w.front ++ [q.tail.index], lag := [] }
      { q with tail := x } = w.chain q := by
    rw [hw]
    simp [View.chain]
  refine ⟨hw' ▸ h.chain, by simp, by simp, fun m => ?_, fun m => ?_, h.behind, ?_, ?_, h.fault⟩
  · rw [← h.owned m, hw']
    simp [hb]
  · rw [h.retired m]
    simp [hr]
  · rw [hw']
    exact h.values
  · refine Program.forall_frames_step rfl rfl h.frame hsound fun f' _ hs => ?_
    refine hs.transfer (fun _ _ => ⟨rfl, rfl⟩) (fun y _ hp => ⟨?_, fun _ => rfl⟩)
      fun y _ hy => ⟨hy, fun _ => ⟨rfl, rfl⟩⟩
    rcases hp with rfl | hp | hp
    · exact .inr (.inl (by simp))
    · exact .inr (.inl (by simp [hp]))
    · exact .inr (.inr hp)

/-! ## The front of the chain -/

/-- A `Dequeue` moves `Head` to the next node. -/
theorem Inv.moveHead {next : Tagged} {v : T} (h : Inv w q (pre ++ [.casHead next q.head v] ++ post))
    (hfront : w.front ≠ []) (htags : ∀ f' ∈ pre ++ post, ∀ x, f'.curHead = some x → x ≠ next) :
    ∃ w', Inv w' { q with head := next, dequeued := q.dequeued ++ [v] }
      (pre ++ [.setFlag q.head.index, .ret v] ++ post) := by
  obtain ⟨hne, hsound⟩ := h.frame (.casHead next q.head v) (by simp)
  obtain ⟨hnext, hdata⟩ := hsound rfl
  obtain ⟨a, front, hw⟩ := List.exists_cons_of_ne_nil hfront
  have hchain : w.chain q = a :: (front ++ q.tail.index :: w.lag) := by rw [View.chain, hw]; rfl
  have hc := h.chain
  rw [hchain, links_cons] at hc
  obtain ⟨rfl, ha, hc⟩ := hc
  rw [← hnext] at hc
  refine ⟨{ w with front := front, retired := q.head.index :: w.retired }, hc, h.lag, fun hl => ?_,
    fun m => ?_, fun m => ?_, ?_, ?_, ?_, h.fault⟩
  · obtain ⟨x, hx⟩ := h.late hl
    exact ⟨x, by simpa using hx⟩
  · rw [← h.owned m, hchain]
    simp [View.chain, List.count_cons]
    omega
  · rw [List.count_cons, h.retired m]
    simp
    omega
  · simp only [List.mem_cons]
    rintro m (rfl | hm)
    · exact hnext ▸ hne
    · exact h.behind m hm
  · rcases hl : front ++ q.tail.index :: w.lag with _ | ⟨y, l⟩
    · simp at hl
    · rw [hl, links_cons] at hc
      simp only [View.chain]
      rw [h.values, hchain, hl, hdata, hc.1]
      simp
  · refine Program.forall_frames_step rfl rfl h.frame ?_ fun f' hf' hs => ?_
    · simp [ha]
    · refine hs.transfer (fun _ _ => ⟨rfl, rfl⟩) (fun y _ hp => ⟨?_, fun _ => rfl⟩)
        fun y hy hyn => absurd hyn (htags f' hf' y hy)
      rcases hp with rfl | hp | hp
      · exact .inl rfl
      · rw [hw, List.mem_cons] at hp
        rcases hp with hp | hp
        · exact .inr (.inr (by simp [hp]))
        · exact .inr (.inl hp)
      · exact .inr (.inr (by simp [hp]))

/-- A node is freed, which no `Enqueue` relies on. -/
theorem Inv.freeNode (h : Inv w q (pre ++ [.freeNode n] ++ post))
    (hfree : ∀ f' ∈ pre ++ post, ∀ x, f'.relies = some x → x.index ≠ n) :
    Inv { w with retired := w.retired.erase n } { q with pool := n :: q.pool }
      (pre ++ [] ++ post) := by
  have hmem : 0 < w.retired.count n := by
    rw [h.retired n]
    simp
  refine ⟨h.chain, h.lag, fun hne => ?_, fun m => ?_, fun m => ?_, fun m hm => ?_, h.values, ?_,
    h.fault⟩
  · obtain ⟨x, hx⟩ := h.late hne
    exact ⟨x, by simpa using hx⟩
  · rw [← h.owned m, List.count_erase, List.count_cons]
    simp [View.chain]
    split <;> grind
  · have := h.retired m
    rw [List.count_erase, this]
    simp
    omega
  · exact h.behind m (List.mem_of_mem_erase hm)
  · refine Program.forall_frames_step rfl rfl h.frame (by simp) fun f' hf' hs => ?_
    refine hs.transfer (fun _ _ => ⟨rfl, rfl⟩) (fun y hy hp => ⟨?_, fun _ => rfl⟩)
      (fun _ _ hx => ⟨hx, fun _ => ⟨rfl, rfl⟩⟩)
    rcases hp with hp | hp | hp
    · exact .inl hp
    · exact .inr (.inl hp)
    · exact .inr (.inr ((List.mem_erase_of_ne (hfree f' hf' y hy)).2 hp))

end NetworkLibrary.LockFreeQueue
