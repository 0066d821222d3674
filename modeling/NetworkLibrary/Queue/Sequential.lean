import NetworkLibrary.Foundations.Links
import NetworkLibrary.Queue.LockFreeQueue
import Mathlib.Algebra.Order.Ring.Int

/-!
# Calls of `LockFreeQueue` one after the other

`Enqueue`, `Dequeue` and `Clear` by calls that do not overlap, over the statements of
`LockFreeQueue`; `Clear`, which does without the reference counts, is added here. The queue may be
constructed on any pool and get nodes back from it in any order. Each call finds and leaves the
queue as `Calm` describes it: the nodes from `Head` to `Tail` have one reference each and hold the
values of an ideal queue, behind the dummy node (`sequential`).
-/

namespace NetworkLibrary.LockFreeQueue

open Foundations

variable {T : Type*}

/-! ## The calls -/

/-- What is recorded of a call. -/
inductive Event (T : Type*)
  /-- `AllocNode` has returned the node. -/
  | alloc (node : ℕ)
  /-- `FreeNode` is called with the node, in the given state. -/
  | free (node : ℕ) (q : Queue T)
  /-- `Dequeue` has returned a value, or false. -/
  | result (r : Option T)

/-- What a statement adds to the record. -/
def events (q : Queue T) : Frame T → Act T → List (Event T)
  | .allocNode _, .fresh _ => [.alloc q.fresh]
  | .allocNode _, .reuse node _ => [.alloc node]
  | .freeNode node, _ => [.free node q]
  | .undoSize, _ => [.result none]
  | .ret tData, _ => [.result (some tData)]
  | _, _ => []

/-- The call stack of a thread runs until it is empty. Only `AllocNode` looks at the label. -/
def runAlone : ℕ → Queue T → List (Frame T) → Act T → Option (Queue T × List (Event T))
  | 0, _, _, _ => none
  | _ + 1, q, [], _ => some (q, [])
  | fuel + 1, q, f :: fs, a =>
    (exec q f a).bind fun (q', new) =>
      (runAlone fuel q' (new ++ fs) a).map fun (r, evs) => (r, events q f a ++ evs)

/-- The loop of `Clear`. -/
def clearLoop : ℕ → Queue T → Option (Queue T × List (Event T))
  | 0, _ => none
  | fuel + 1, q =>
    if q.size = 0 then some (q, [])
    else
      let tmpHead := q.head
      if tmpHead.index = 0 then some ({ q with fault := true }, [])
      else
        let next := Tagged.zero.setPtr (q.link tmpHead.index)
        if next = .zero then some (q, [])
        else
          let q := { q with head := next, refCnt := Function.update q.refCnt tmpHead.index 0 }
          let q' := { q with pool := tmpHead.index :: q.pool, size := q.size - 1 }
          (clearLoop fuel q').map fun (r, evs) => (r, .free tmpHead.index q :: evs)

/-- `Clear`, each iteration of which lowers `Size`. -/
def clear (q : Queue T) : Option (Queue T × List (Event T)) := clearLoop (q.size.toNat + 1) q

/-- A call, with what `AllocNode` returns in it. -/
inductive Op (T : Type*)
  | enqueue (data : T) (node : Act T)
  | dequeue
  | clear

/-- The pool can return the node. -/
def Op.Possible (q : Queue T) : Op T → Prop
  | .enqueue _ (.fresh _) => True
  | .enqueue _ (.reuse node _) => node ∈ q.pool
  | .enqueue _ _ => False
  | _ => True

/-- A call that nobody else interferes with; each ends within 16 statements. -/
def runCall (q : Queue T) : Op T → Option (Queue T × List (Event T))
  | .enqueue data node =>
    (call q (.enqueue data)).bind fun (q, fs) => runAlone 16 q fs node
  | .dequeue => (call q .dequeue).bind fun (q, fs) => runAlone 16 q fs .next
  | .clear => clear q

/-- Calls one after the other. -/
def runCalls : Queue T → List (Op T) → Option (Queue T × List (Event T))
  | q, [] => some (q, [])
  | q, op :: ops =>
    (runCall q op).bind fun (q', evs) =>
      (runCalls q' ops).map fun (r, evs') => (r, evs ++ evs')

/-- The rest of the constructor, with the node that `AllocNode` has returned. -/
def constructOn (q : Queue T) (node : ℕ) : Queue T :=
  { q with head := Tagged.zero.setPtr node
           tail := Tagged.zero.setPtr node
           size := 0
           tagCnt := 0
           next := Function.update q.next node .zero
           refCnt := Function.update q.refCnt node (q.refCnt node + 1) }

/-- The constructor on the memory `q`, whose pool other queues have used. -/
def construct (q : Queue T) : Act T → Option (Queue T × List (Event T))
  | .fresh _ => some (constructOn { q with fresh := q.fresh + 1 } q.fresh, [.alloc q.fresh])
  | .reuse node _ =>
    if node ∈ q.pool then
      some (constructOn { q with pool := q.pool.erase node } node, [.alloc node])
    else none
  | _ => none

/-- The constructor, and calls one after the other. -/
def history (q : Queue T) (node : Act T) (ops : List (Op T)) :
    Option (Queue T × List (Event T)) :=
  (construct q node).bind fun (q', evs) =>
    (runCalls q' ops).map fun (r, evs') => (r, evs ++ evs')

/-! ## The ideal queue -/

/-- The answers of `Dequeue`, and the values left. -/
def ideal : List T → List (Op T) → List (Option T) × List T
  | xs, [] => ([], xs)
  | xs, .enqueue data _ :: ops => ideal (xs ++ [data]) ops
  | [], .dequeue :: ops =>
    let (rs, ys) := ideal [] ops
    (none :: rs, ys)
  | x :: xs, .dequeue :: ops =>
    let (rs, ys) := ideal xs ops
    (some x :: rs, ys)
  | _, .clear :: ops => ideal [] ops

/-- The answers of `Dequeue` in a record. -/
def results : List (Event T) → List (Option T)
  | [] => []
  | .result r :: evs => r :: results evs
  | _ :: evs => results evs

/-- The nodes that are out of the pool after a record, if each was freed only while it was out, and
handed out only while it was not. -/
def replay : List ℕ → List (Event T) → Option (List ℕ)
  | out, [] => some out
  | out, .alloc node :: evs => if node ∈ out then none else replay (node :: out) evs
  | out, .free node _ :: evs => if node ∈ out then replay (out.erase node) evs else none
  | out, .result _ :: evs => replay out evs

/-- A node cannot be reached from an address. -/
def Unreachable (q : Queue T) (start node : ℕ) : Prop :=
  ∃ l, Links 0 q.link start l ∧ node ∉ l

/-- What `FreeNode` gets. -/
def FreedClean (evs : List (Event T)) : Prop :=
  ∀ node q, .free node q ∈ evs → q.refCnt node = 0 ∧ q.deleteFlag node = false ∧
    Unreachable q q.head.index node ∧ Unreachable q q.tail.index node

/-! ## Between the calls -/

/-- The memory that a queue is constructed on: the nodes of the pool and those it has never handed
out have no references and no flag. -/
structure Pristine (q : Queue T) : Prop where
  clean : ∀ n, n ∈ q.pool ∨ q.fresh ≤ n → q.refCnt n = 0 ∧ q.deleteFlag n = false
  nodup : q.pool.Nodup
  pool : ∀ n ∈ q.pool, n ≠ 0 ∧ n < q.fresh
  fresh : 0 < q.fresh
  fault : q.fault = false

/-- The queue between two calls, with the values `xs` and the nodes `ns`. -/
structure Calm (q : Queue T) (xs : List T) (ns : List ℕ) : Prop extends Pristine q where
  links : Links 0 q.link q.head.index ns
  last : ∃ pre, ns = pre ++ [q.tail.index]
  next : q.next q.tail.index = .zero
  data : ns.tail.map q.data = xs
  size : q.size = xs.length
  refs : ∀ n ∈ ns, q.refCnt n = 1 ∧ q.deleteFlag n = false
  out : ∀ n ∈ ns, n ∉ q.pool ∧ n < q.fresh

variable {q q' q₁ : Queue T} {a : Act T} {d x : T} {xs : List T} {n h : ℕ} {ns : List ℕ}
  {flag : Bool} {op : Op T} {ops : List (Op T)} {evs evs' : List (Event T)} {out : List ℕ}

/-! ## The calls, statement by statement -/

/-- `Enqueue` behind the node of `Tail`. -/
theorem runAlone_setData (hn : n ≠ 0) (ht : q.tail.index ≠ 0) (hne : n ≠ q.tail.index)
    (hnext : q.next q.tail.index = .zero) (href : q.refCnt q.tail.index = 1) :
    runAlone 15 q [.setData d ⟨n, flag, 0⟩] a = some (
      { q with
        data := Function.update q.data n d
        next := Function.update (Function.update q.next n .zero) q.tail.index
          ⟨n, flag, q.getTagCnt⟩
        refCnt := Function.update q.refCnt n (q.refCnt n + 1)
        tagCnt := q.tagCnt + 1
        linked := q.linked ++ [d]
        tail := ⟨n, flag, q.getTagCnt⟩
        size := q.size + 1 }, []) := by
  have hz : Tagged.zero.setPtr Tagged.zero.index = Tagged.zero := rfl
  simp [runAlone, exec, stmt, Frame.deref, events, hn, ht, hne.symm, Queue.link, hnext, href,
    Queue.getTagCnt, hz]

/-- The queue when `Dequeue` frees the node of `Head`. -/
def unlinked (q : Queue T) : Queue T :=
  { q with
    head := ⟨q.link q.head.index, false, q.getTagCnt⟩
    size := q.size - 1
    tagCnt := q.tagCnt + 1
    refCnt := Function.update q.refCnt q.head.index 0
    deleteFlag := Function.update q.deleteFlag q.head.index false
    dequeued := q.dequeued ++ [q.data (q.link q.head.index)] }

theorem runAlone_decSize (hsize : 0 < q.size) (hh : q.head.index ≠ 0)
    (hne : q.head.index ≠ q.tail.index) (hx : q.link q.head.index ≠ 0)
    (href : q.refCnt q.head.index = 1) :
    runAlone 16 q [.decSize] a = some (
      { unlinked q with
        pool := q.head.index :: q.pool
        returned := q.returned ++ [q.data (q.link q.head.index)] },
      [.free q.head.index (unlinked q), .result (some (q.data (q.link q.head.index)))]) := by
  have hpos : ¬q.size ≤ 0 := by omega
  have hx : (q.next q.head.index).index ≠ 0 := hx
  simp [runAlone, exec, stmt, Frame.deref, events, hpos, hh, hne, hx, href, Queue.link,
    Queue.getTagCnt, Tagged.setPtr, Tagged.zero, unlinked]

theorem runAlone_decSize_empty (hsize : q.size = 0) :
    runAlone 16 q [.decSize] a = some (q, [.result none]) := by
  simp [runAlone, exec, stmt, Frame.deref, events, hsize]
  rw [← hsize]

/-! ## `Enqueue` -/

/-- `AllocNode` has taken the node. -/
structure Taken (q q₁ : Queue T) (n : ℕ) : Prop where
  pristine : Pristine q₁
  same : ∃ pool fresh, q₁ = { q with pool := pool, fresh := fresh }
  ne : n ≠ 0
  clean : q.refCnt n = 0 ∧ q.deleteFlag n = false
  source : n ∈ q.pool ∨ q.fresh ≤ n
  out : n ∉ q₁.pool ∧ n < q₁.fresh
  pool : ∀ x ∈ q₁.pool, x ∈ q.pool
  fresh : q.fresh ≤ q₁.fresh

theorem taken_fresh (hq : Pristine q) : Taken q { q with fresh := q.fresh + 1 } q.fresh where
  pristine := ⟨fun n hn => hq.clean n (hn.imp id fun hle => (Nat.le_succ _).trans hle), hq.nodup,
    fun n hn => ⟨(hq.pool n hn).1, Nat.lt_succ_of_lt (hq.pool n hn).2⟩, Nat.succ_pos _, hq.fault⟩
  same := ⟨_, _, rfl⟩
  ne := Nat.ne_of_gt hq.fresh
  clean := hq.clean _ (.inr (Nat.le_refl _))
  source := .inr (Nat.le_refl _)
  out := ⟨fun hn => Nat.lt_irrefl _ (hq.pool _ hn).2, Nat.lt_succ_self _⟩
  pool _ hx := hx
  fresh := Nat.le_succ _

theorem taken_reuse (hq : Pristine q) (hn : n ∈ q.pool) :
    Taken q { q with pool := q.pool.erase n } n where
  pristine := ⟨fun x hx => hq.clean x (hx.imp List.mem_of_mem_erase id), hq.nodup.erase n,
    fun x hx => hq.pool x (List.mem_of_mem_erase hx), hq.fresh, hq.fault⟩
  same := ⟨_, _, rfl⟩
  ne := (hq.pool n hn).1
  clean := hq.clean n (.inl hn)
  source := .inl hn
  out := ⟨hq.nodup.not_mem_erase, (hq.pool n hn).2⟩
  pool _ hx := List.mem_of_mem_erase hx
  fresh := Nat.le_refl _

theorem Calm.notMem (hq : Calm q xs ns) (hn : Taken q q₁ n) : n ∉ ns := fun hmem => by
  obtain ⟨hpool, hlt⟩ := hq.out n hmem
  exact hn.source.elim hpool fun hle => by omega

theorem Calm.tail_mem (hq : Calm q xs ns) : q.tail.index ∈ ns := by
  obtain ⟨pre, rfl⟩ := hq.last
  simp

/-- The queue after an `Enqueue` that got the node `n`. -/
theorem Calm.enqueue (hq : Calm q xs ns) (hn : Taken q q₁ n) (d : T) (flag : Bool) (a : Act T) :
    ∃ q', runAlone 15 q₁ [.setData d ⟨n, flag, 0⟩] a = some (q', []) ∧
      Calm q' (xs ++ [d]) (ns ++ [n]) := by
  have hnot := hq.notMem hn
  have htail := hq.tail_mem
  have hne : ∀ m ∈ ns, m ≠ n := fun m hm h => hnot (h ▸ hm)
  obtain ⟨pre, hpre⟩ := hq.last
  have ht : q.tail.index ≠ 0 := hq.links.ne_nil _ htail
  have hnt : n ≠ q.tail.index := (hne _ htail).symm
  obtain ⟨pool, fresh, rfl⟩ := hn.same
  refine ⟨_, runAlone_setData hn.ne ht hnt hq.next (hq.refs _ htail).1, ?_⟩
  have hlinks : Links 0 (fun m => (Function.update (Function.update q.next n .zero) q.tail.index
      ⟨n, flag, q.getTagCnt⟩ m).index) q.head.index (pre ++ [q.tail.index, n]) := by
    refine (hpre ▸ hq.links).concat (by simp) (fun m hm => ?_) hn.ne ?_
    · have hmt : m ≠ q.tail.index := by
        rintro rfl
        have hnodup := hq.links.nodup
        rw [hpre] at hnodup
        exact List.disjoint_of_nodup_append hnodup hm (by simp)
      simp [Queue.link, hmt, hne m (by simp [hpre, hm])]
    · simp [hnt, Tagged.zero]
  refine ⟨⟨fun m hm => ?_, hn.pristine.nodup, hn.pristine.pool, hn.pristine.fresh, hq.fault⟩, ?_, ?_,
    ?_, ?_, ?_, fun m hm => ?_, fun m hm => ?_⟩
  · have hmn : m ≠ n := by
      rintro rfl
      exact hm.elim hn.out.1 hn.out.2.not_ge
    simpa [hmn] using hn.pristine.clean m hm
  · rw [hpre, List.append_assoc]
    exact hlinks
  · exact ⟨ns, rfl⟩
  · simp [hnt]
  · have hne_nil : ns ≠ [] := List.ne_nil_of_mem htail
    have hold : ns.tail.map (Function.update q.data n d) = ns.tail.map q.data :=
      List.map_congr_left fun m hm => Function.update_of_ne (hne m (List.mem_of_mem_tail hm)) _ _
    rw [List.tail_append_of_ne_nil hne_nil, List.map_append, hold, hq.data]
    simp
  · rw [List.length_append, Nat.cast_add, ← hq.size]
    rfl
  · rcases List.mem_append.1 hm with hm | hm
    · simpa [hne m hm] using hq.refs m hm
    · obtain rfl := List.mem_singleton.1 hm
      simpa [hn.clean.1] using hn.clean.2
  · rcases List.mem_append.1 hm with hm | hm
    · obtain ⟨hpool, hlt⟩ := hq.out m hm
      exact ⟨fun h => hpool (hn.pool m h), hlt.trans_le hn.fresh⟩
    · obtain rfl := List.mem_singleton.1 hm
      exact hn.out

/-! ## `Dequeue` and `Clear` -/

theorem Calm.last_tail (hq : Calm q (x :: xs) (h :: ns)) : ∃ pre, ns = pre ++ [q.tail.index] := by
  have hdata : ns.map q.data = x :: xs := hq.data
  obtain ⟨pre, hpre⟩ := hq.last
  cases pre with
  | nil =>
    obtain rfl : ns = [] := (List.cons.inj hpre).2
    cases hdata
  | cons y pre => exact ⟨pre, (List.cons.inj hpre).2⟩

/-- The node of `Head` is given back. -/
theorem Calm.unlink (hq : Calm q (x :: xs) (h :: ns)) (hhead : q'.head.index = q.link h)
    (htail : q'.tail = q.tail) (hsize : q'.size = q.size - 1) (hnext : q'.next = q.next)
    (hdata : q'.data = q.data) (href : q'.refCnt = Function.update q.refCnt h 0)
    (hflag : ∀ m, q'.deleteFlag m = q.deleteFlag m) (hpool : q'.pool = h :: q.pool)
    (hfresh : q'.fresh = q.fresh) (hfault : q'.fault = q.fault) : Calm q' xs ns := by
  have hnodup := List.nodup_cons.1 hq.links.nodup
  have hrefs := hq.refs h (by simp)
  have hout := hq.out h (by simp)
  have hne : ∀ m ∈ ns, m ≠ h := fun m hm heq => hnodup.1 (heq ▸ hm)
  obtain ⟨-, hnull, hlinks⟩ := hq.links
  have hdata' : ns.map q.data = x :: xs := hq.data
  have hlast := hq.last_tail
  refine ⟨⟨fun m hm => ?_, ?_, fun m hm => ?_, hfresh ▸ hq.fresh, hfault.trans hq.fault⟩, ?_, ?_, ?_,
    ?_, ?_, fun m hm => ?_, fun m hm => ?_⟩
  · rw [href, hflag]
    by_cases hmh : m = h
    · subst hmh
      exact ⟨Function.update_self .., hrefs.2⟩
    · rw [Function.update_of_ne hmh]
      rw [hpool, hfresh, List.mem_cons] at hm
      exact hq.clean m (hm.imp (·.resolve_left hmh) id)
  · rw [hpool]
    exact List.nodup_cons.2 ⟨hout.1, hq.nodup⟩
  · rw [hpool, List.mem_cons] at hm
    rw [hfresh]
    rcases hm with rfl | hm
    · exact ⟨hnull, hout.2⟩
    · exact hq.pool m hm
  · rw [hhead]
    exact hlinks.congr fun m _ => by rw [Queue.link, Queue.link, hnext]
  · rwa [htail]
  · rw [htail, hnext, hq.next]
  · rw [hdata, List.map_tail, hdata', List.tail_cons]
  · rw [hsize, hq.size, List.length_cons]
    omega
  · rw [href, hflag, Function.update_of_ne (hne m hm)]
    exact hq.refs m (by simp [hm])
  · rw [hpool, hfresh, List.mem_cons, not_or]
    obtain ⟨h₁, h₂⟩ := hq.out m (by simp [hm])
    exact ⟨⟨hne m hm, h₁⟩, h₂⟩

/-- The node that was unlinked cannot be reached any more. -/
theorem Calm.unreachable (hq : Calm q (x :: xs) (h :: ns)) (hhead : q'.head.index = q.link h)
    (htail : q'.tail = q.tail) (hnext : q'.next = q.next) :
    Unreachable q' q'.head.index h ∧ Unreachable q' q'.tail.index h := by
  have hnot := (List.nodup_cons.1 hq.links.nodup).1
  have hlink : q'.link = q.link := by
    funext m
    rw [Queue.link, Queue.link, hnext]
  obtain ⟨pre, hpre⟩ := hq.last_tail
  have htmem : q.tail.index ∈ ns := by simp [hpre]
  rw [Unreachable, Unreachable, hhead, htail, hlink]
  refine ⟨⟨ns, hq.links.2.2, hnot⟩, [q.tail.index], ⟨rfl, ?_, ?_⟩, ?_⟩
  · exact hq.links.ne_nil _ (List.mem_cons_of_mem _ htmem)
  · show q.link q.tail.index = 0
    rw [Queue.link, hq.next]
    rfl
  · rw [List.mem_singleton]
    rintro rfl
    exact hnot htmem

theorem Calm.exists_cons (hq : Calm q xs ns) : ∃ ns', ns = q.head.index :: ns' := by
  cases ns with
  | nil => simpa using hq.tail_mem
  | cons h ns => exact ⟨ns, by rw [hq.links.1]⟩

theorem Calm.length_eq (hq : Calm q xs ns) : ns.length = xs.length + 1 := by
  obtain ⟨ns, rfl⟩ := hq.exists_cons
  rw [← hq.data, List.length_map, List.tail_cons, List.length_cons]

/-- The first value and its node. -/
theorem Calm.first (hq : Calm q (x :: xs) (h :: ns)) :
    q.head.index = h ∧ h ≠ 0 ∧ q.refCnt h = 1 ∧ q.deleteFlag h = false ∧ 0 < q.size ∧
      h ≠ q.tail.index ∧ q.link h ≠ 0 ∧ q.data (q.link h) = x := by
  obtain ⟨hhead, hne, hlinks⟩ := hq.links
  obtain ⟨pre, hpre⟩ := hq.last_tail
  have hnot := (List.nodup_cons.1 hq.links.nodup).1
  obtain ⟨h₁, h₂⟩ := hq.refs h (by simp)
  have hsize := hq.size
  rw [List.length_cons] at hsize
  have hdata : ns.map q.data = x :: xs := hq.data
  cases ns with
  | nil => cases hdata
  | cons m ns =>
    refine ⟨hhead, hne, h₁, h₂, by omega, ?_, ?_, ?_⟩
    · rintro rfl
      exact hnot (by rw [hpre]; simp)
    · rw [hlinks.1]
      exact hlinks.2.1
    · rw [hlinks.1]
      exact (List.cons.inj hdata).1

/-- A `Dequeue` that finds a value. -/
theorem Calm.dequeue (hq : Calm q (x :: xs) (h :: ns)) :
    ∃ q' q₁, runCall q .dequeue = some (q', [.free h q₁, .result (some x)]) ∧ Calm q' xs ns ∧
      q₁.refCnt h = 0 ∧ q₁.deleteFlag h = false ∧ Unreachable q₁ q₁.head.index h ∧
      Unreachable q₁ q₁.tail.index h := by
  obtain ⟨rfl, hne, href, hflag, hsize, htail, hlink, rfl⟩ := hq.first
  have hkeep : Function.update q.deleteFlag q.head.index false = q.deleteFlag := by
    rw [← hflag, Function.update_eq_self]
  refine ⟨_, _, runAlone_decSize hsize hne htail hlink href, ?_, Function.update_self .., ?_,
    hq.unreachable rfl rfl rfl⟩
  · exact hq.unlink rfl rfl rfl rfl rfl rfl (fun m => congrFun hkeep m) rfl rfl rfl
  · exact Function.update_self ..

theorem runCall_dequeue_empty (hq : Calm q [] ns) :
    runCall q .dequeue = some (q, [.result none]) :=
  runAlone_decSize_empty hq.size

/-! ## Records -/

/-- A record takes the nodes `ns` out of the pool to the nodes `ns'`. -/
def Replays (evs : List (Event T)) (ns ns' : List ℕ) : Prop :=
  ∀ out, out.Perm ns → ∃ out', replay out evs = some out' ∧ out'.Perm ns'

theorem replay_append (out : List ℕ) (evs evs' : List (Event T)) :
    replay out (evs ++ evs') = (replay out evs).bind fun out' => replay out' evs' := by
  induction evs generalizing out with
  | nil => rfl
  | cons e evs ih =>
    cases e with
    | alloc node =>
      simp only [List.cons_append, replay]
      split
      · rfl
      · exact ih _
    | free node q =>
      simp only [List.cons_append, replay]
      split
      · exact ih _
      · rfl
    | result r => exact ih out

theorem Replays.append {ns' ns'' : List ℕ} (h₁ : Replays evs ns ns') (h₂ : Replays evs' ns' ns'') :
    Replays (evs ++ evs') ns ns'' := by
  intro out hout
  obtain ⟨out', h, hout'⟩ := h₁ out hout
  obtain ⟨out'', h', hout''⟩ := h₂ out' hout'
  exact ⟨out'', by rw [replay_append, h, Option.bind_some, h'], hout''⟩

theorem replays_nil (ns : List ℕ) : Replays ([] : List (Event T)) ns ns := fun out hout =>
  ⟨out, rfl, hout⟩

theorem replays_alloc (hn : n ∉ ns) : Replays [(.alloc n : Event T)] ns (ns ++ [n]) := by
  intro out hout
  refine ⟨n :: out, ?_, ?_⟩
  · rw [replay, if_neg (mt hout.mem_iff.1 hn)]
    rfl
  · exact (hout.cons n).trans (List.perm_append_singleton n ns).symm

theorem replays_free (h : ℕ) (q : Queue T) (ns : List ℕ) : Replays [.free h q] (h :: ns) ns := by
  intro out hout
  refine ⟨out.erase h, ?_, ?_⟩
  · rw [replay, if_pos (hout.mem_iff.2 (by simp))]
    rfl
  · have := hout.erase h
    rwa [List.erase_cons_head] at this

theorem replays_result (r : Option T) (ns : List ℕ) : Replays [.result r] ns ns := fun out hout =>
  ⟨out, rfl, hout⟩

theorem results_append (evs evs' : List (Event T)) :
    results (evs ++ evs') = results evs ++ results evs' := by
  induction evs with
  | nil => rfl
  | cons e evs ih =>
    cases e with
    | result r => exact congrArg (r :: ·) ih
    | _ => exact ih

theorem FreedClean.append (h₁ : FreedClean evs) (h₂ : FreedClean evs') :
    FreedClean (evs ++ evs') := fun node q h =>
  (List.mem_append.1 h).elim (h₁ node q) (h₂ node q)

/-- A call, or calls, that take the queue to another one between two calls. -/
structure Served (q' : Queue T) (evs : List (Event T)) (rs : List (Option T)) (ys : List T)
    (ns ns' : List ℕ) : Prop where
  calm : Calm q' ys ns'
  results : results evs = rs
  freed : FreedClean evs
  replays : Replays evs ns ns'

theorem freedClean_free (h₁ : q.refCnt n = 0) (h₂ : q.deleteFlag n = false)
    (h₃ : Unreachable q q.head.index n) (h₄ : Unreachable q q.tail.index n) :
    FreedClean [.free n q] := by
  intro node q' hmem
  obtain ⟨rfl, rfl⟩ := Event.free.inj (List.mem_singleton.1 hmem)
  exact ⟨h₁, h₂, h₃, h₄⟩

theorem freedClean_result (r : Option T) : FreedClean [.result r] := fun node q hmem => by
  cases List.mem_singleton.1 hmem

theorem freedClean_alloc (n : ℕ) : FreedClean [(.alloc n : Event T)] := fun node q hmem => by
  cases List.mem_singleton.1 hmem

/-! ## Whole calls -/

/-- The loop of `Clear` takes the values off like `Dequeue`. -/
theorem Calm.served_clearLoop {fuel : ℕ} (hq : Calm q xs ns) (hfuel : xs.length < fuel) :
    ∃ q' evs ns', clearLoop fuel q = some (q', evs) ∧ Served q' evs [] [] ns ns' := by
  induction xs generalizing q ns fuel with
  | nil =>
    obtain ⟨fuel, rfl⟩ := Nat.exists_eq_succ_of_ne_zero (Nat.ne_of_gt hfuel)
    have hsize : q.size = 0 := hq.size
    refine ⟨q, [], ns, ?_, hq, rfl, fun _ _ h => absurd h List.not_mem_nil, replays_nil ns⟩
    rw [clearLoop, if_pos hsize]
  | cons x xs ih =>
    obtain ⟨fuel, rfl⟩ := Nat.exists_eq_succ_of_ne_zero (Nat.ne_of_gt (Nat.zero_lt_of_lt hfuel))
    obtain ⟨ns, rfl⟩ := hq.exists_cons
    obtain ⟨-, hne, href, hflag, hsize, htail, hlink, -⟩ := hq.first
    let next := Tagged.zero.setPtr (q.link q.head.index)
    have hnext : next ≠ .zero := fun h => hlink (congrArg Tagged.index h)
    let q₁ : Queue T := { q with
      head := next, refCnt := Function.update q.refCnt q.head.index 0 }
    have hunreach : Unreachable q₁ q₁.head.index q.head.index ∧
        Unreachable q₁ q₁.tail.index q.head.index := hq.unreachable rfl rfl rfl
    have hcalm : Calm { q₁ with pool := q.head.index :: q.pool, size := q.size - 1 } xs ns :=
      hq.unlink rfl rfl rfl rfl rfl rfl (fun _ => rfl) rfl rfl rfl
    obtain ⟨q', evs, ns', hrun, hserved⟩ := ih hcalm (Nat.lt_of_succ_lt_succ hfuel)
    refine ⟨q', .free q.head.index q₁ :: evs, ns', ?_, hserved.calm, hserved.results, ?_, ?_⟩
    · rw [clearLoop, if_neg hsize.ne']
      simp only [if_neg hne]
      rw [if_neg hnext, hrun]
      rfl
    · have hfree := freedClean_free (q := q₁) (Function.update_self ..) hflag hunreach.1 hunreach.2
      exact hfree.append hserved.freed
    · exact (replays_free q.head.index q₁ ns).append hserved.replays

theorem Calm.served_clear (hq : Calm q xs ns) :
    ∃ q' evs ns', clear q = some (q', evs) ∧ Served q' evs [] [] ns ns' :=
  hq.served_clearLoop (by rw [hq.size, Int.toNat_natCast]; exact Nat.lt_succ_self _)

theorem Calm.served_dequeue (hq : Calm q (x :: xs) ns) :
    ∃ q' evs ns', runCall q .dequeue = some (q', evs) ∧ Served q' evs [some x] xs ns ns' := by
  obtain ⟨ns, rfl⟩ := hq.exists_cons
  obtain ⟨q', q₁, hrun, hcalm, href, hflag, hhead, htail⟩ := hq.dequeue
  refine ⟨q', _, ns, hrun, hcalm, rfl, ?_, ?_⟩
  · exact (freedClean_free href hflag hhead htail).append (freedClean_result (some x))
  · exact (replays_free _ q₁ ns).append (replays_result (some x) ns)

/-- `Enqueue`, once `AllocNode` has returned. -/
theorem Calm.served_setData (hq : Calm q xs ns) (hn : Taken q q₁ n) (d : T) (flag : Bool)
    (a : Act T) : ∃ q' evs ns', ((runAlone 15 q₁ [.setData d ⟨n, flag, 0⟩] a).map
      fun (r, evs) => (r, .alloc n :: evs)) = some (q', evs) ∧
      Served q' evs [] (xs ++ [d]) ns ns' := by
  obtain ⟨q', h, hcalm⟩ := hq.enqueue hn d flag a
  refine ⟨q', [.alloc n], ns ++ [n], ?_, hcalm, rfl, freedClean_alloc n, ?_⟩
  · rw [h]
    rfl
  · exact replays_alloc (hq.notMem hn)

theorem Calm.served_enqueue (hq : Calm q xs ns) (hop : (Op.enqueue d a).Possible q) :
    ∃ q' evs ns', runCall q (.enqueue d a) = some (q', evs) ∧
      Served q' evs [] (xs ++ [d]) ns ns' := by
  have hcalled : Calm { q with called := q.called ++ [d] } xs ns :=
    ⟨⟨hq.clean, hq.nodup, hq.pool, hq.fresh, hq.fault⟩, hq.links, hq.last, hq.next, hq.data,
      hq.size, hq.refs, hq.out⟩
  cases a with
  | fresh flag =>
    exact hcalled.served_setData (taken_fresh hcalled.toPristine) d flag (.fresh flag)
  | reuse node flag =>
    have hmem : node ∈ q.pool := hop
    obtain ⟨q', evs, ns', hrun, hserved⟩ :=
      hcalled.served_setData (taken_reuse hcalled.toPristine hmem) d flag (.reuse node flag)
    refine ⟨q', evs, ns', ?_, hserved⟩
    rw [← hrun]
    simp [runCall, call, runAlone, exec, stmt, Frame.deref, events, hmem]
  | _ => exact hop.elim

/-- **One call** answers like the ideal queue. -/
theorem Calm.served_call (hq : Calm q xs ns) (hop : op.Possible q) :
    ∃ q' evs ns', runCall q op = some (q', evs) ∧
      Served q' evs (ideal xs [op]).1 (ideal xs [op]).2 ns ns' := by
  cases op with
  | enqueue data node => exact hq.served_enqueue hop
  | clear =>
    cases xs with
    | _ => exact hq.served_clear
  | dequeue =>
    cases xs with
    | cons x xs => exact hq.served_dequeue
    | nil =>
      exact ⟨q, _, ns, runCall_dequeue_empty hq, hq, rfl, freedClean_result none,
        replays_result none ns⟩

/-- A call that ends was possible. -/
theorem possible_of_runCall {r : Queue T × List (Event T)} (h : runCall q op = some r) :
    op.Possible q := by
  cases op with
  | enqueue data node =>
    cases node with
    | fresh flag => trivial
    | reuse node flag =>
      by_contra hmem
      have hmem : node ∉ q.pool := hmem
      simp [runCall, call, runAlone, exec, stmt, Frame.deref, hmem] at h
    | _ => cases h
  | _ => trivial

theorem ideal_cons (xs : List T) (op : Op T) (ops : List (Op T)) :
    ideal xs (op :: ops) = ((ideal xs [op]).1 ++ (ideal (ideal xs [op]).2 ops).1,
      (ideal (ideal xs [op]).2 ops).2) := by
  cases op with
  | dequeue =>
    cases xs with
    | _ => rfl
  | clear =>
    cases xs with
    | _ => rfl
  | enqueue data node => cases xs <;> rfl

/-- **Calls one after the other** answer like the ideal queue. -/
theorem Calm.served_calls (hq : Calm q xs ns) (h : runCalls q ops = some (q', evs)) :
    ∃ ns', Served q' evs (ideal xs ops).1 (ideal xs ops).2 ns ns' := by
  induction ops generalizing q xs ns evs with
  | nil =>
    obtain ⟨rfl, rfl⟩ := Prod.mk.inj (Option.some.inj h)
    exact ⟨ns, hq, rfl, fun _ _ h => absurd h List.not_mem_nil, replays_nil ns⟩
  | cons op ops ih =>
    obtain ⟨⟨q₁, evs₁⟩, hcall, h⟩ := Option.bind_eq_some_iff.1 h
    obtain ⟨⟨q₂, evs₂⟩, hcalls, h⟩ := Option.map_eq_some_iff.1 h
    obtain ⟨rfl, rfl⟩ := Prod.mk.inj h
    obtain ⟨q₁', evs₁', ns₁, hcall', hone⟩ := hq.served_call (possible_of_runCall hcall)
    obtain ⟨rfl, rfl⟩ := Prod.mk.inj (Option.some.inj (hcall.symm.trans hcall'))
    obtain ⟨ns₂, hrest⟩ := ih hone.calm hcalls
    rw [ideal_cons]
    refine ⟨ns₂, hrest.calm, ?_, hone.freed.append hrest.freed, hone.replays.append hrest.replays⟩
    rw [results_append, hone.results, hrest.results]

theorem calm_constructOn (hn : Taken q q₁ n) : Calm (constructOn q₁ n) [] [n] := by
  obtain ⟨pool, fresh, rfl⟩ := hn.same
  have hp := hn.pristine
  have hcleanRef : Function.update q.refCnt n (q.refCnt n + 1) n = 1 := by
    rw [Function.update_self, hn.clean.1, zero_add]
  refine ⟨⟨fun m hm => ?_, hp.nodup, hp.pool, hp.fresh, hp.fault⟩, ⟨rfl, hn.ne, ?_⟩, ⟨[], rfl⟩, ?_,
    rfl, rfl, fun m hm => ?_, fun m hm => ?_⟩
  · have hmn : m ≠ n := by
      rintro rfl
      exact hm.elim hn.out.1 hn.out.2.not_ge
    have hclean := hp.clean m hm
    exact ⟨(Function.update_of_ne hmn _ _).trans hclean.1, hclean.2⟩
  · simp [constructOn, Queue.link, Tagged.zero]
  · exact Function.update_self ..
  · obtain rfl := List.mem_singleton.1 hm
    exact ⟨hcleanRef, hn.clean.2⟩
  · obtain rfl := List.mem_singleton.1 hm
    exact hn.out

/-- The constructor. -/
theorem Pristine.construct (hq : Pristine q) (h : construct q a = some (q', evs)) :
    ∃ n, evs = [.alloc n] ∧ Calm q' [] [n] := by
  cases a with
  | fresh flag =>
    obtain ⟨rfl, rfl⟩ := Prod.mk.inj (Option.some.inj h)
    exact ⟨_, rfl, calm_constructOn (taken_fresh hq)⟩
  | reuse node flag =>
    by_cases hmem : node ∈ q.pool
    · obtain ⟨rfl, rfl⟩ := Prod.mk.inj (Option.some.inj ((if_pos hmem).symm.trans h))
      exact ⟨node, rfl, calm_constructOn (taken_reuse hq hmem)⟩
    · cases (if_neg hmem).symm.trans h
  | _ => cases h

/-- **Calls that do not overlap.** After the constructor and any calls of `Enqueue`, `Dequeue` and
`Clear`, `Dequeue` has answered like an ideal queue, whose length `GetUseSize` is; each node was
freed with no reference and no flag, where neither `Head` nor `Tail` leads to it, and once for each
time it was allocated; and one node more than there are values is out of the pool. -/
theorem sequential (hq : Pristine q) (h : history q a ops = some (q', evs)) :
    results evs = (ideal [] ops).1 ∧ q'.size = (ideal [] ops).2.length ∧ FreedClean evs ∧
      (∃ out, replay [] evs = some out ∧ out.length = (ideal [] ops).2.length + 1 ∧
        ∀ n ∈ out, n ∉ q'.pool) ∧
      q'.fault = false ∧ ∀ op, op.Possible q' → ∃ r, runCall q' op = some r := by
  obtain ⟨⟨q₁, evs₁⟩, hconstruct, h⟩ := Option.bind_eq_some_iff.1 h
  obtain ⟨⟨q₂, evs₂⟩, hcalls, h⟩ := Option.map_eq_some_iff.1 h
  obtain ⟨rfl, rfl⟩ := Prod.mk.inj h
  obtain ⟨n, rfl, hcalm⟩ := hq.construct hconstruct
  obtain ⟨ns, hserved⟩ := hcalm.served_calls hcalls
  have hreplays := (replays_alloc (T := T) (List.not_mem_nil (a := n))).append hserved.replays
  obtain ⟨out, hout, hperm⟩ := hreplays [] (List.Perm.refl [])
  refine ⟨hserved.results, hserved.calm.size, ?_, ⟨out, hout, ?_, fun m hm => ?_⟩,
    hserved.calm.fault, fun op hop => ?_⟩
  · exact (freedClean_alloc n).append hserved.freed
  · rw [hperm.length_eq, hserved.calm.length_eq]
  · exact (hserved.calm.out m (hperm.mem_iff.1 hm)).1
  · obtain ⟨q', evs', -, hrun, -⟩ := hserved.calm.served_call hop
    exact ⟨_, hrun⟩

/-- A pool with the nodes 1 and 2, which hold old values and links. -/
def used : Queue ℕ := { initQueue ℕ with
  data := fun _ => 9, next := fun n => ⟨n + 1, true, 4⟩, refCnt := fun _ => 0, pool := [2, 1]
  fresh := 3 }

/-- Calls on that pool in which `Dequeue` and `Clear` give back nodes that are used again. -/
def usedCalls : List (Op ℕ) :=
  [.enqueue 5 (.fresh true), .enqueue 6 (.reuse 1 false), .dequeue, .enqueue 7 (.reuse 2 false),
    .clear, .dequeue, .enqueue 8 (.reuse 1 true)]

theorem pristine_used : Pristine used where
  clean _ _ := ⟨rfl, rfl⟩
  nodup := by decide
  pool := by simp [used]
  fresh := by decide
  fault := rfl

theorem sequential_used : ∃ q evs, history used (.reuse 2 false) usedCalls = some (q, evs) ∧
    results evs = [some 5, none] ∧ q.size = 1 := by
  have hsome : (history used (.reuse 2 false) usedCalls).isSome = true := by decide
  obtain ⟨⟨q, evs⟩, h⟩ := Option.isSome_iff_exists.1 hsome
  obtain ⟨hresults, hsize, -⟩ := sequential pristine_used h
  exact ⟨q, evs, h, hresults, hsize⟩

end NetworkLibrary.LockFreeQueue
