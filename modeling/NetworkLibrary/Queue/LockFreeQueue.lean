import NetworkLibrary.Foundations.Threads
import Mathlib.Logic.Function.Basic

/-!
# `LockFreeQueue`

`Enqueue` and `Dequeue` on one queue, run by any number of threads; every interlocked operation and
every read or write of a shared word is one step. Nodes are addresses, 0 is `nullptr`, and the
memory is a map for each field of `stNode`. The pool is ideal: `AllocNode` may return any freed
node, with its fields as they were left, or a new one. The address range that the constructor
checks for is not modelled, nor is `Clear`, which no running call may overlap.

A thread that dereferences `nullptr` never gets past that statement, and the queue keeps the record
of it (`fault`). `RefCnt` is an integer: every `Enqueue` draws a tag before its loop, so that a
`short` does not overflow while fewer than 2^16 tags are drawn.
-/

namespace NetworkLibrary.LockFreeQueue

open Foundations

/-- `stNode_TAGED`. -/
structure Tagged where
  index : ℕ
  flag : Bool
  tag : ℕ
  deriving DecidableEq

/-- `Data == 0`. -/
def Tagged.zero : Tagged := ⟨0, false, 0⟩

/-- The assignment of a pointer to a `stNode_TAGED`: only `Index` is written. -/
def Tagged.setPtr (x : Tagged) (node : ℕ) : Tagged := { x with index := node }

/-- The queue, its nodes and their pool, and the record of the run. -/
structure Queue (T : Type*) where
  head : Tagged
  tail : Tagged
  /-- `Size`. -/
  size : ℤ
  /-- The tags drawn so far. -/
  tagCnt : ℕ
  /-- `stNode::Data`. -/
  data : ℕ → T
  /-- `stNode::Next`, the whole word. -/
  next : ℕ → Tagged
  /-- `stNode::RefCnt`. -/
  refCnt : ℕ → ℤ
  /-- `stNode::DeleteFlag`. -/
  deleteFlag : ℕ → Bool
  /-- The nodes that were freed and not handed out again. -/
  pool : List ℕ
  /-- The next address the pool has never handed out. -/
  fresh : ℕ
  /-- The arguments of the calls of `Enqueue`. -/
  called : List T
  /-- The values whose nodes were linked, in this order. -/
  linked : List T
  /-- The values whose nodes became `Head`, in this order. -/
  dequeued : List T
  /-- The values that successful calls of `Dequeue` have returned. -/
  returned : List T
  fault : Bool

variable {T : Type*}

/-- `GetTagCnt`: the tag that is drawn next. -/
def Queue.getTagCnt (q : Queue T) : ℕ := (q.tagCnt + 1) % 2 ^ 16

/-- The link of a node. -/
def Queue.link (q : Queue T) (node : ℕ) : ℕ := (q.next node).index

/-- The queue after its constructor, with node 1 as the dummy node. -/
def initQueue (T : Type*) [Inhabited T] : Queue T where
  head := Tagged.zero.setPtr 1
  tail := Tagged.zero.setPtr 1
  size := 0
  tagCnt := 0
  data := fun _ => default
  next := fun _ => .zero
  refCnt := Function.update (fun _ => 0) 1 1
  deleteFlag := fun _ => false
  pool := []
  fresh := 2
  called := []
  linked := []
  dequeued := []
  returned := []
  fault := false

/-- The running functions, by the statement they are about to execute, with their local variables.
A frame below another one is a caller. -/
inductive Frame (T : Type*)
  /-- `Enqueue`: `AllocNode()`. -/
  | allocNode (data : T)
  /-- `NewNode->Data = data`. -/
  | setData (data : T) (newNode : Tagged)
  /-- `NewNode->Next = nullptr`. -/
  | setNext (data : T) (newNode : Tagged)
  /-- `NewNode->IncrementRef()`. -/
  | incNew (data : T) (newNode : Tagged)
  /-- `NewNode.SetTag(GetTagCnt())`. -/
  | tagNew (data : T) (newNode : Tagged)
  /-- The loop of `Enqueue`: `OldTail = Tail`. -/
  | readTail (data : T) (newNode : Tagged)
  /-- `OldTail->IncrementRef()`. -/
  | incOld (data : T) (newNode oldTail : Tagged)
  /-- `Tail->Next`: the read of `Tail`. -/
  | readTailAgain (data : T) (newNode oldTail : Tagged)
  /-- `Tail->Next`: the read of the link. -/
  | readNext (data : T) (newNode oldTail : Tagged) (tail : ℕ)
  /-- `OldTail == Tail`, and `Next.Data == 0`. -/
  | testTail (data : T) (newNode oldTail next : Tagged)
  /-- `OldTail.CAS_Next(NewNode.Data, 0)`. -/
  | casNext (data : T) (newNode oldTail : Tagged)
  /-- `Tail.CAS(NewNode.Data, OldTail.Data)`. -/
  | casTail (newNode oldTail : Tagged)
  /-- `Tail.CAS(Next.Data, OldTail.Data)`. -/
  | help (data : T) (newNode oldTail next : Tagged)
  /-- `DecrementRef() == 0`, in both functions. -/
  | decRef (node : ℕ)
  /-- `InterlockedExchange16(&DeleteFlag, 0) == 1`. -/
  | takeFlag (node : ℕ)
  /-- `FreeNode`. -/
  | freeNode (node : ℕ)
  /-- The end of `Enqueue`: `Size` is raised. -/
  | incSize
  /-- `Dequeue`: `Size` is lowered and tested. -/
  | decSize
  /-- `Size` is raised again; `Dequeue` returns false. -/
  | undoSize
  /-- `Next.SetTag(GetTagCnt())`. -/
  | tagNext
  /-- The loop of `Dequeue`: `CurHead = Head`. -/
  | readHead (next : Tagged)
  /-- `CurTail = Tail`. -/
  | readCurTail (next curHead : Tagged)
  /-- `Next = CurHead->Next`. -/
  | readHeadNext (next curHead curTail : Tagged)
  /-- `CurHead == Head`, and `CurHead.GetPtr() == CurTail.GetPtr()`. -/
  | testHead (next curHead curTail : Tagged)
  /-- `Tail.CAS(Next.Data, CurTail.Data)`. -/
  | moveTail (next curTail : Tagged)
  /-- `tData = Next->Data`. -/
  | readData (next curHead : Tagged)
  /-- `Head.CAS(Next.Data, CurHead.Data)`. -/
  | casHead (next curHead : Tagged) (tData : T)
  /-- `InterlockedExchange16(&CurHead->DeleteFlag, 1)`. -/
  | setFlag (node : ℕ)
  /-- `return true`. -/
  | ret (tData : T)

/-- The labels: the call an idle thread makes, or what `AllocNode` returns (`next` where there is
nothing to choose). `flag` is the `Flag` bit of `NewNode`, which nothing initialises. -/
inductive Act (T : Type*)
  | next
  | enqueue (data : T)
  | dequeue
  /-- `AllocNode` returns a new node. -/
  | fresh (flag : Bool)
  /-- `AllocNode` returns a freed node. -/
  | reuse (node : ℕ) (flag : Bool)

/-- The calls of an idle thread. -/
def call (q : Queue T) : Act T → Option (Queue T × List (Frame T))
  | .enqueue data => some ({ q with called := q.called ++ [data] }, [.allocNode data])
  | .dequeue => some (q, [.decSize])
  | _ => none

/-- The address that a statement dereferences. -/
def Frame.deref : Frame T → Option ℕ
  | .setData _ newNode | .setNext _ newNode | .incNew _ newNode => some newNode.index
  | .incOld _ _ oldTail | .casNext _ _ oldTail => some oldTail.index
  | .readNext _ _ _ tail => some tail
  | .decRef node | .takeFlag node | .setFlag node => some node
  | .readHeadNext _ curHead _ => some curHead.index
  | .readData next _ => some next.index
  | _ => none

/-- The statements, where they dereference no `nullptr`. -/
def stmt (q : Queue T) : Frame T → Act T → Option (Queue T × List (Frame T))
  -- Enqueue
  | .allocNode data, .fresh flag =>
    some ({ q with fresh := q.fresh + 1 }, [.setData data ⟨q.fresh, flag, 0⟩])
  | .allocNode data, .reuse node flag =>
    if node ∈ q.pool then
      some ({ q with pool := q.pool.erase node }, [.setData data ⟨node, flag, 0⟩])
    else none
  | .allocNode _, _ => none
  | .setData data newNode, _ =>
    some ({ q with data := Function.update q.data newNode.index data }, [.setNext data newNode])
  | .setNext data newNode, _ =>
    some ({ q with next := Function.update q.next newNode.index .zero }, [.incNew data newNode])
  | .incNew data newNode, _ =>
    some ({ q with refCnt := Function.update q.refCnt newNode.index (q.refCnt newNode.index + 1) },
      [.tagNew data newNode])
  | .tagNew data newNode, _ =>
    some ({ q with tagCnt := q.tagCnt + 1 }, [.readTail data { newNode with tag := q.getTagCnt }])
  | .readTail data newNode, _ => some (q, [.incOld data newNode q.tail])
  | .incOld data newNode oldTail, _ =>
    some ({ q with refCnt := Function.update q.refCnt oldTail.index (q.refCnt oldTail.index + 1) },
      [.readTailAgain data newNode oldTail])
  | .readTailAgain data newNode oldTail, _ =>
    some (q, [.readNext data newNode oldTail q.tail.index])
  | .readNext data newNode oldTail tail, _ =>
    some (q, [.testTail data newNode oldTail (Tagged.zero.setPtr (q.link tail))])
  | .testTail data newNode oldTail next, _ =>
    if oldTail = q.tail then
      if next = .zero then some (q, [.casNext data newNode oldTail])
      else some (q, [.help data newNode oldTail next])
    else some (q, [.decRef oldTail.index, .readTail data newNode])
  | .casNext data newNode oldTail, _ =>
    if q.next oldTail.index = .zero then
      some ({ q with
        next := Function.update q.next oldTail.index newNode, linked := q.linked ++ [data] },
        [.casTail newNode oldTail])
    else some (q, [.decRef oldTail.index, .readTail data newNode])
  | .casTail newNode oldTail, _ =>
    if q.tail = oldTail then
      some ({ q with tail := newNode }, [.decRef oldTail.index, .incSize])
    else some (q, [.decRef oldTail.index, .incSize])
  | .help data newNode oldTail next, _ =>
    if q.tail = oldTail then
      some ({ q with tail := next }, [.decRef oldTail.index, .readTail data newNode])
    else some (q, [.decRef oldTail.index, .readTail data newNode])
  | .incSize, _ => some ({ q with size := q.size + 1 }, [])
  -- the release of a node
  | .decRef node, _ =>
    if q.refCnt node - 1 = 0 then
      some ({ q with refCnt := Function.update q.refCnt node (q.refCnt node - 1) },
        [.takeFlag node])
    else some ({ q with refCnt := Function.update q.refCnt node (q.refCnt node - 1) }, [])
  | .takeFlag node, _ =>
    if q.deleteFlag node = true then
      some ({ q with deleteFlag := Function.update q.deleteFlag node false }, [.freeNode node])
    else some ({ q with deleteFlag := Function.update q.deleteFlag node false }, [])
  | .freeNode node, _ => some ({ q with pool := node :: q.pool }, [])
  -- Dequeue
  | .decSize, _ =>
    if q.size ≤ 0 then some ({ q with size := q.size - 1 }, [.undoSize])
    else some ({ q with size := q.size - 1 }, [.tagNext])
  | .undoSize, _ => some ({ q with size := q.size + 1 }, [])
  | .tagNext, _ =>
    some ({ q with tagCnt := q.tagCnt + 1 }, [.readHead { Tagged.zero with tag := q.getTagCnt }])
  | .readHead next, _ => some (q, [.readCurTail next q.head])
  | .readCurTail next curHead, _ => some (q, [.readHeadNext next curHead q.tail])
  | .readHeadNext next curHead curTail, _ =>
    some (q, [.testHead (next.setPtr (q.link curHead.index)) curHead curTail])
  | .testHead next curHead curTail, _ =>
    if curHead = q.head then
      if curHead.index = curTail.index then some (q, [.moveTail next curTail])
      else some (q, [.readData next curHead])
    else some (q, [.readHead next])
  | .moveTail next curTail, _ =>
    if q.tail = curTail then some ({ q with tail := next }, [.readHead next])
    else some (q, [.readHead next])
  | .readData next curHead, _ => some (q, [.casHead next curHead (q.data next.index)])
  | .casHead next curHead tData, _ =>
    if q.head = curHead then
      some ({ q with head := next, dequeued := q.dequeued ++ [tData] },
        [.setFlag curHead.index, .ret tData])
    else some (q, [.readHead next])
  | .setFlag node, _ =>
    some ({ q with deleteFlag := Function.update q.deleteFlag node true }, [.decRef node])
  | .ret tData, _ => some ({ q with returned := q.returned ++ [tData] }, [])

/-- One statement; a thread stays where it dereferences `nullptr`. -/
def exec (q : Queue T) (f : Frame T) (a : Act T) : Option (Queue T × List (Frame T)) :=
  if f.deref = some 0 then some ({ q with fault := true }, [f]) else stmt q f a

/-- The functions of `LockFreeQueue`. -/
def program : Program (Queue T) (Frame T) (Act T) := ⟨call, exec⟩

/-- The runs of a queue. -/
def system (T : Type*) [Inhabited T] : Lts (Threads (Queue T) (Frame T)) (ℕ × Act T) :=
  program.lts (initQueue T)

end NetworkLibrary.LockFreeQueue
