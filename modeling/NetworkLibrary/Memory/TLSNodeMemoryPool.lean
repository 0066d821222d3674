import NetworkLibrary.Foundations.Transition
import Mathlib.Algebra.Order.Ring.Int
import Mathlib.Data.Nat.Notation
import Mathlib.Logic.Function.Basic

/-!
# `TLSNodeMemoryPool`

Every thread has a pool of its own: a list of free nodes, linked through the nodes themselves, and
their number. A pool that has run empty takes a whole chunk of 100 nodes from the shared
`ChunckStack`, or creates one; a pool that has reached 100 nodes gives them away as a chunk, which
is no more than the pointer to its first node.

The calls on one pool do not overlap, those on different pools do: a step executes one statement of
the call that runs on one pool, with at most one access to what the pools share. The stack of
chunks is ideal. An address is a number, 0 is `nullptr`; `new` may return any address at which no
node lives. The padding of a node, which `Free` looks at, is not modelled, as nothing here writes it.

`TotalSize`, `UseSize` and `FreeSize` are integers where the code has a `long` of 32 bits:
`TotalSize` counts the nodes that were created and the others some of these, 100 at a time, so that
none of them wraps before 2^31 nodes have been created.
-/

namespace NetworkLibrary

/-- `TLSChunkMemoryPool::kChunkDefault`. -/
def kChunkDefault : ℕ := 100

/-- What the pools share, and which nodes the callers have. -/
structure ChunkMemory where
  /-- `Next` of the node at an address. -/
  next : ℕ → ℕ
  /-- A node lives at the address: it was created and not deleted. -/
  live : ℕ → Bool
  /-- `Alloc` has returned the node, and it has not been passed to `Free`. -/
  held : ℕ → Bool
  chunckStack : List ℕ
  totalSize : ℤ
  useSize : ℤ
  freeSize : ℤ
  /-- A null pointer was dereferenced. -/
  crashed : Bool

/-- The running calls, by the statement they are about to execute. -/
inductive PoolFrame
  /-- No call is running on the pool. -/
  | idle
  /-- `Alloc`: `FreeNodeCnt == 0`. -/
  | alloc
  /-- `Head = ChunckPool->AllocChunck()`. -/
  | allocChunck
  /-- `Head == nullptr`. -/
  | checkHead
  /-- The loop of `NewNodeList`, with `n` iterations left and its local variable `head`. -/
  | newNodeList (n head : ℕ)
  /-- `FreeNodeCnt += ChunckSize`. -/
  | addChunck
  /-- `node = Head; Head = Head->Next; FreeNodeCnt--`. -/
  | take
  /-- `Free`: `node->Next = Head`. -/
  | link (node : ℕ)
  /-- `Head = node` and `++FreeNodeCnt >= ChunckSize`. -/
  | push (node : ℕ)
  /-- The loop of `Head = Head->Next`, with `n` iterations left, then `FreeNodeCnt -= ChunckSize`. -/
  | cut (n node : ℕ)
  /-- `ChunckPool->FreeChunck(node)`. -/
  | freeChunck (node : ℕ)
  /-- The loop of the destructor. -/
  | destroy
  deriving DecidableEq

/-- The pool of one thread, with the call that runs on it. -/
structure TLSNodeMemoryPool where
  head : ℕ
  freeNodeCnt : ℤ
  frame : PoolFrame
  deriving DecidableEq

namespace TLSNodeMemoryPool

/-- The constructor. -/
def new : TLSNodeMemoryPool := ⟨0, 0, .idle⟩

/-- The labels: the call an idle pool gets, or the answer to the statement that is executed. -/
inductive Act
  | next
  /-- A thread without a pool makes one. -/
  | construct
  | alloc
  | free (node : ℕ)
  | destroy
  /-- `new` returns the address. -/
  | new (node : ℕ)
  deriving DecidableEq

/-- One statement on a pool: what the pools share and the pool after it; no pool is left at the end
of the destructor. -/
def exec (g : ChunkMemory) (p : TLSNodeMemoryPool) : PoolFrame → Act →
    Option (ChunkMemory × Option TLSNodeMemoryPool)
  | .idle, .alloc => some (g, some { p with frame := .alloc })
  | .idle, .free node =>
    if g.held node = true then
      some ({ g with held := Function.update g.held node false }, some { p with frame := .link node })
    else none
  | .idle, .destroy => some (g, some { p with frame := .destroy })
  | .idle, _ => none
  -- Alloc
  | .alloc, _ =>
    if p.freeNodeCnt = 0 then some (g, some { p with frame := .allocChunck })
    else some (g, some { p with frame := .take })
  | .allocChunck, _ =>
    match g.chunckStack with
    | [] =>
      some ({ g with totalSize := g.totalSize + kChunkDefault
                     useSize := g.useSize + kChunkDefault },
        some { p with head := 0, frame := .checkHead })
    | chunck :: stack =>
      some ({ g with chunckStack := stack
                     freeSize := g.freeSize - kChunkDefault
                     useSize := g.useSize + kChunkDefault },
        some { p with head := chunck, frame := .checkHead })
  | .checkHead, _ =>
    if p.head = 0 then some (g, some { p with frame := .newNodeList kChunkDefault p.head })
    else some (g, some { p with frame := .addChunck })
  | .newNodeList (n + 1) head, .new node =>
    if node ≠ 0 ∧ g.live node = false then
      some ({ g with live := Function.update g.live node true
                     next := Function.update g.next node head },
        some { p with frame := .newNodeList n node })
    else none
  | .newNodeList (_ + 1) _, _ => none
  | .newNodeList 0 head, _ => some (g, some { p with head := head, frame := .addChunck })
  | .addChunck, _ =>
    some (g, some { p with freeNodeCnt := p.freeNodeCnt + kChunkDefault, frame := .take })
  | .take, _ =>
    if p.head = 0 then some ({ g with crashed := true }, some p)
    else
      some ({ g with held := Function.update g.held p.head true },
        some ⟨g.next p.head, p.freeNodeCnt - 1, .idle⟩)
  -- Free
  | .link node, _ =>
    some ({ g with next := Function.update g.next node p.head }, some { p with frame := .push node })
  | .push node, _ =>
    if p.freeNodeCnt + 1 ≥ kChunkDefault then
      some (g, some ⟨node, p.freeNodeCnt + 1, .cut kChunkDefault node⟩)
    else some (g, some ⟨node, p.freeNodeCnt + 1, .idle⟩)
  | .cut (n + 1) node, _ =>
    if p.head = 0 then some ({ g with crashed := true }, some p)
    else some (g, some { p with head := g.next p.head, frame := .cut n node })
  | .cut 0 node, _ =>
    some (g, some { p with freeNodeCnt := p.freeNodeCnt - kChunkDefault, frame := .freeChunck node })
  | .freeChunck node, _ =>
    some ({ g with useSize := g.useSize - kChunkDefault
                   freeSize := g.freeSize + kChunkDefault
                   chunckStack := node :: g.chunckStack }, some { p with frame := .idle })
  -- ~TLSNodeMemoryPool
  | .destroy, _ =>
    if p.head = 0 then some (g, none)
    else
      some ({ g with live := Function.update g.live p.head false },
        some { p with head := g.next p.head })

/-- What the pools share, and the pools of the threads. -/
structure State where
  shared : ChunkMemory
  pools : ℕ → Option TLSNodeMemoryPool

/-- No thread has a pool yet; the links are what `new` will find in the memory. -/
def start (next : ℕ → ℕ) : State where
  shared := ⟨next, fun _ => false, fun _ => false, [], 0, 0, 0, false⟩
  pools := fun _ => none

/-- One step of a thread. -/
def step (s : State) (l : ℕ × Act) : Option State :=
  match s.pools l.1 with
  | none =>
    if l.2 = .construct then some { s with pools := Function.update s.pools l.1 (some new) } else none
  | some p => (exec s.shared p p.frame l.2).map fun r => ⟨r.1, Function.update s.pools l.1 r.2⟩

/-- The pools of any number of threads. -/
def system : Foundations.Lts State (ℕ × Act) where
  init s := ∃ next, s = start next
  step := step

end TLSNodeMemoryPool

end NetworkLibrary
