import NetworkLibrary.Stack.LockFreeStack

/-!
# `LockFreeMemoryPool`

`Alloc` and `Free` on one pool, run by any number of threads; every interlocked operation and every
read or write of a shared word is one step. The nodes are addresses, 0 is `nullptr`, and `new`
returns an address that it has not returned before, since no node is deleted before the destructor
runs: that `new` initialises `Next` is part of the memory at the start. `stNode_TAGED` is declared
as in `LockFreeStack`. The pads around the data, which only their
users could overwrite, and the address range that the constructor checks for are not modelled.

A thread that dereferences `nullptr` never gets past that statement, and the pool keeps the record
of it (`fault`). The record of the run also holds the tags that `GetTagCnt` has returned, and the
blocks that `Alloc` has returned and `Free` was not called with since.
-/

namespace NetworkLibrary.LockFreeMemoryPool

open Foundations
open LockFreeStack (Tagged)

/-- The pool, its nodes, and the record of the run. -/
structure Pool where
  headFreeNode : Tagged
  freeNodeCnt : ℤ
  useNodeCnt : ℤ
  totalNodeCnt : ℤ
  memoryAllocSize : ℕ
  /-- `TagCnt`, as the number of tags drawn. -/
  tagCnt : ℕ
  /-- `stNode::Next`. -/
  next : ℕ → ℕ
  /-- The next address that `new` returns. -/
  fresh : ℕ
  /-- The tags that `GetTagCnt` has returned. -/
  drawn : List ℕ
  /-- The nodes of the blocks that are allocated and not freed. -/
  user : List ℕ
  fault : Bool

/-- `GetTagCnt`: the 16 bits of the incremented counter. -/
def Pool.getTagCnt (p : Pool) : ℕ := (p.tagCnt + 1) % 2 ^ 16

/-- The call of `GetTagCnt`. -/
def Pool.draw (p : Pool) : Pool :=
  { p with tagCnt := p.tagCnt + 1, drawn := p.drawn ++ [p.getTagCnt] }

/-- `NewNode`, while nobody else uses the pool; `flag` is the bit of `NewTop` that its constructor
does not initialise. -/
def Pool.addNode (p : Pool) (flag : Bool) : Pool :=
  { p.draw with
    fresh := p.fresh + 1
    next := Function.update p.next p.fresh p.headFreeNode.index
    headFreeNode := ⟨p.fresh, flag, p.getTagCnt⟩
    freeNodeCnt := p.freeNodeCnt + 1
    totalNodeCnt := p.totalNodeCnt + 1 }

/-- The pool before the loop of its constructor. -/
def emptyPool (initSize : ℕ) : Pool where
  headFreeNode := ⟨0, false, 0⟩
  freeNodeCnt := 0
  useNodeCnt := 0
  totalNodeCnt := 0
  memoryAllocSize := initSize
  tagCnt := 0
  next := fun _ => 0
  fresh := 1
  drawn := []
  user := []
  fault := false

/-- The loop of the constructor. -/
def Pool.addNodes (flags : ℕ → Bool) : ℕ → Pool → Pool
  | 0, p => p
  | i + 1, p => (p.addNodes flags i).addNode (flags i)

/-- The constructor. -/
def construct (flags : ℕ → Bool) (initSize : ℕ) : Pool :=
  (emptyPool initSize).addNodes flags initSize

/-- The running functions, by the statement they are about to execute, with their local variables.
`PopFromFreeNode` is part of `Alloc`, its only caller. -/
inductive Frame
  /-- `PopFromFreeNode`: `NewTop.SetTag(GetTagCnt())`. -/
  | tagPop
  /-- `FreeNodeCnt` is lowered and tested. -/
  | decFree (newTop : Tagged)
  /-- `FreeNodeCnt` is raised again; `PopFromFreeNode` returns `nullptr`. -/
  | undoFree
  /-- The loop of `PopFromFreeNode`: `OldTop = HeadFreeNode`. -/
  | readOld (newTop : Tagged)
  /-- `NewTop = OldTop->Next`. -/
  | readNext (newTop oldTop : Tagged)
  /-- `HeadFreeNode.CAS(NewTop.Data, OldTop.Data)`. -/
  | casPop (newTop oldTop : Tagged)
  /-- The loop of `Alloc` that calls `NewNode`, with the iterations left. -/
  | grow (i : ℕ)
  /-- `UseNodeCnt` is raised; `Alloc` returns the block. -/
  | incUse (node : ℕ)
  /-- `NewNode`: `new stNode`. -/
  | newNode
  /-- `TotalNodeCnt` is raised. -/
  | incTotal
  /-- `PushtoFreeNode`: `NewTop.SetTag(GetTagCnt())`. -/
  | tagPush (newTop : Tagged)
  /-- The loop of `PushtoFreeNode`: `OldTop = HeadFreeNode`. -/
  | readHead (newTop : Tagged)
  /-- `NewTop->Next = OldTop.GetPtr()`. -/
  | setNext (newTop oldTop : Tagged)
  /-- `HeadFreeNode.CAS(NewTop.Data, OldTop.Data)`. -/
  | casPush (newTop oldTop : Tagged)
  /-- `FreeNodeCnt` is raised. -/
  | incFree
  /-- `Free`: `UseNodeCnt` is lowered. -/
  | decUse
  deriving DecidableEq

/-- The labels: the call an idle thread makes, or what a statement finds in uninitialised memory
(`next` where there is nothing to choose). -/
inductive Act
  | next
  | alloc
  /-- The call of `Free`, with the flag of `NewTop` in `PushtoFreeNode`. -/
  | free (node : ℕ) (flag : Bool)
  /-- `new` returns a node; `flag` as in `free`. -/
  | new (flag : Bool)

/-- The calls of an idle thread; a block is freed by its owner. -/
def call (p : Pool) : Act → Option (Pool × List Frame)
  | .alloc => some (p, [.tagPop])
  | .free node flag =>
    if node ∈ p.user then
      some ({ p with user := p.user.erase node }, [.tagPush ⟨node, flag, 0⟩, .decUse])
    else none
  | _ => none

/-- The address that a statement dereferences. -/
def Frame.deref : Frame → Option ℕ
  | .readNext _ oldTop => some oldTop.index
  | .setNext newTop _ => some newTop.index
  | _ => none

/-- The statements, where they dereference no `nullptr`. -/
def stmt (p : Pool) : Frame → Act → Option (Pool × List Frame)
  -- PopFromFreeNode
  | .tagPop, _ => some (p.draw, [.decFree ⟨0, false, p.getTagCnt⟩])
  | .decFree newTop, _ =>
    if p.freeNodeCnt ≤ 0 then some ({ p with freeNodeCnt := p.freeNodeCnt - 1 }, [.undoFree])
    else some ({ p with freeNodeCnt := p.freeNodeCnt - 1 }, [.readOld newTop])
  | .undoFree, _ =>
    some ({ p with freeNodeCnt := p.freeNodeCnt + 1 }, [.grow p.memoryAllocSize])
  | .readOld newTop, _ => some (p, [.readNext newTop p.headFreeNode])
  | .readNext newTop oldTop, _ =>
    some (p, [.casPop (newTop.setPtr (p.next oldTop.index)) oldTop])
  | .casPop newTop oldTop, _ =>
    if p.headFreeNode = oldTop then
      some ({ p with headFreeNode := newTop }, [.incUse oldTop.index])
    else some (p, [.readOld newTop])
  -- Alloc
  | .grow 0, _ => some (p, [.tagPop])
  | .grow (i + 1), _ => some (p, [.newNode, .grow i])
  | .incUse node, _ =>
    some ({ p with useNodeCnt := p.useNodeCnt + 1, user := node :: p.user }, [])
  -- NewNode
  | .newNode, .new flag =>
    some ({ p with fresh := p.fresh + 1 }, [.tagPush ⟨p.fresh, flag, 0⟩, .incTotal])
  | .newNode, _ => none
  | .incTotal, _ => some ({ p with totalNodeCnt := p.totalNodeCnt + 1 }, [])
  -- PushtoFreeNode
  | .tagPush newTop, _ => some (p.draw, [.readHead (newTop.setTag p.getTagCnt)])
  | .readHead newTop, _ => some (p, [.setNext newTop p.headFreeNode])
  | .setNext newTop oldTop, _ =>
    some ({ p with next := Function.update p.next newTop.index oldTop.index },
      [.casPush newTop oldTop])
  | .casPush newTop oldTop, _ =>
    if p.headFreeNode = oldTop then some ({ p with headFreeNode := newTop }, [.incFree])
    else some (p, [.readHead newTop])
  | .incFree, _ => some ({ p with freeNodeCnt := p.freeNodeCnt + 1 }, [])
  -- Free
  | .decUse, _ => some ({ p with useNodeCnt := p.useNodeCnt - 1 }, [])

/-- One statement; a thread stays where it dereferences `nullptr`. -/
def exec (p : Pool) (f : Frame) (a : Act) : Option (Pool × List Frame) :=
  if f.deref = some 0 then some ({ p with fault := true }, [f]) else stmt p f a

/-- The functions of `LockFreeMemoryPool`. -/
def program : Program Pool Frame Act := ⟨call, exec⟩

/-- The runs of a pool after its constructor. -/
def system (flags : ℕ → Bool) (initSize : ℕ) : Lts (Threads Pool Frame) (ℕ × Act) :=
  program.lts (construct flags initSize)

end NetworkLibrary.LockFreeMemoryPool
