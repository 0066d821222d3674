import NetworkLibrary.Foundations.Threads
import Mathlib.Logic.Function.Basic

/-!
# `LockFreeStack`

`Push` and both versions of `Pop`, which do the same, on one stack, run by any number of threads;
every interlocked operation and every read or write of a shared word is one step. Nodes are
addresses, 0 is `nullptr`, and the memory is a map for each field of `stNode`. The pool is ideal:
`Alloc` may return any freed node, with its fields as they were left, or a new one. The address
range that the constructor checks for is not modelled.

A thread that dereferences `nullptr` never gets past that statement, and the stack keeps the record
of it (`fault`). The record of the run also holds the tags that `GetTagCnt` has returned, and the
successful operations in the order of their compare-and-swaps on `Top`.
-/

namespace NetworkLibrary.LockFreeStack

open Foundations

/-- `stNode_TAGED`. -/
structure Tagged where
  index : ℕ
  flag : Bool
  tag : ℕ
  deriving DecidableEq

/-- The assignment of a pointer to a `stNode_TAGED`: only `Index` is written. -/
def Tagged.setPtr (x : Tagged) (node : ℕ) : Tagged := { x with index := node }

def Tagged.setTag (x : Tagged) (tag : ℕ) : Tagged := { x with tag := tag }

/-- A successful operation, with the value it pushes, or finds in the node it takes off. -/
inductive Op (T : Type*)
  | push (v : T)
  | pop (v : T)
  deriving DecidableEq

/-- The stack, its nodes and their pool, and the record of the run. -/
structure Stack (T : Type*) where
  top : Tagged
  /-- `Size`. -/
  size : ℤ
  /-- `TagCnt`, as the number of tags drawn. -/
  tagCnt : ℕ
  /-- `stNode::Data`. -/
  data : ℕ → T
  /-- `stNode::Next`. -/
  next : ℕ → ℕ
  /-- The nodes that were freed and not handed out again. -/
  pool : List ℕ
  /-- The next address the pool has never handed out. -/
  fresh : ℕ
  /-- The tags that `GetTagCnt` has returned. -/
  drawn : List ℕ
  /-- The arguments of the calls of `Push`. -/
  called : List T
  /-- The successful operations, by their compare-and-swaps. -/
  history : List (Op T)
  /-- For every `Pop` that has returned a value: the value of its operation in `history`, and the
  value it has returned. -/
  returned : List (T × T)
  fault : Bool

variable {T : Type*}

/-- `GetTagCnt`: the 16 bits of the incremented counter. -/
def Stack.getTagCnt (s : Stack T) : ℕ := (s.tagCnt + 1) % 2 ^ 16

/-- The call of `GetTagCnt`. -/
def Stack.draw (s : Stack T) : Stack T :=
  { s with tagCnt := s.tagCnt + 1, drawn := s.drawn ++ [s.getTagCnt] }

/-- The stack after its constructor; `data` and `next` are what the memory holds. -/
def initStack (data : ℕ → T) (next : ℕ → ℕ) : Stack T where
  top := ⟨0, false, 0⟩
  size := 0
  tagCnt := 0
  data := data
  next := next
  pool := []
  fresh := 1
  drawn := []
  called := []
  history := []
  returned := []
  fault := false

/-- The running functions, by the statement they are about to execute, with their local
variables. -/
inductive Frame (T : Type*)
  /-- `Push`: `NodePool.Alloc()`. -/
  | alloc (tData : T)
  /-- `NewTop.SetTag(GetTagCnt())`. -/
  | tagPush (tData : T) (newTop : Tagged)
  /-- `NewTop->Data = tData`. -/
  | setData (tData : T) (newTop : Tagged)
  /-- The loop of `Push`: `OldTop = Top`. -/
  | readTop (tData : T) (newTop : Tagged)
  /-- `NewTop->Next = OldTop.GetPtr()`. -/
  | setNext (tData : T) (newTop oldTop : Tagged)
  /-- `Top.CAS(NewTop.Data, OldTop.Data)`. -/
  | casPush (tData : T) (newTop oldTop : Tagged)
  /-- `Size` is raised. -/
  | incSize
  /-- `Pop`: `NewTop.SetTag(GetTagCnt())`. -/
  | tagPop
  /-- `Size` is lowered and tested. -/
  | decSize (newTop : Tagged)
  /-- `Size` is raised again; `Pop` returns no value. -/
  | undoSize
  /-- The loop of `Pop`: `OldTop = Top`. -/
  | readOld (newTop : Tagged)
  /-- `NewTop = OldTop->Next`. -/
  | readNext (newTop oldTop : Tagged)
  /-- `Top.CAS(NewTop.Data, OldTop.Data)`. -/
  | casPop (newTop oldTop : Tagged)
  /-- `OldTop->Data`; `v` is the value of the operation in the record. -/
  | readData (node : ℕ) (v : T)
  /-- `NodePool.Free(OldTop.GetPtr())`. -/
  | free (node : ℕ) (v returnData : T)
  /-- The return of the value. -/
  | ret (v returnData : T)

/-- The labels: the call an idle thread makes, or what `Alloc` returns (`next` where there is
nothing to choose). `flag` and `tag` are the bits of `NewTop` that its constructor does not
initialise. -/
inductive Act (T : Type*)
  | next
  | push (tData : T)
  | pop
  /-- `Alloc` returns a new node. -/
  | fresh (flag : Bool) (tag : ℕ)
  /-- `Alloc` returns a freed node. -/
  | reuse (node : ℕ) (flag : Bool) (tag : ℕ)

/-- The calls of an idle thread. -/
def call (s : Stack T) : Act T → Option (Stack T × List (Frame T))
  | .push tData => some ({ s with called := s.called ++ [tData] }, [.alloc tData])
  | .pop => some (s, [.tagPop])
  | _ => none

/-- The address that a statement dereferences. -/
def Frame.deref : Frame T → Option ℕ
  | .setData _ newTop | .setNext _ newTop _ => some newTop.index
  | .readNext _ oldTop => some oldTop.index
  | .readData node _ => some node
  | _ => none

/-- The statements, where they dereference no `nullptr`. -/
def stmt (s : Stack T) : Frame T → Act T → Option (Stack T × List (Frame T))
  -- Push
  | .alloc tData, .fresh flag tag =>
    some ({ s with fresh := s.fresh + 1 }, [.tagPush tData ⟨s.fresh, flag, tag⟩])
  | .alloc tData, .reuse node flag tag =>
    if node ∈ s.pool then
      some ({ s with pool := s.pool.erase node }, [.tagPush tData ⟨node, flag, tag⟩])
    else none
  | .alloc _, _ => none
  | .tagPush tData newTop, _ => some (s.draw, [.setData tData (newTop.setTag s.getTagCnt)])
  | .setData tData newTop, _ =>
    some ({ s with data := Function.update s.data newTop.index tData }, [.readTop tData newTop])
  | .readTop tData newTop, _ => some (s, [.setNext tData newTop s.top])
  | .setNext tData newTop oldTop, _ =>
    some ({ s with next := Function.update s.next newTop.index oldTop.index },
      [.casPush tData newTop oldTop])
  | .casPush tData newTop oldTop, _ =>
    if s.top = oldTop then
      some ({ s with top := newTop, history := s.history ++ [.push tData] }, [.incSize])
    else some (s, [.readTop tData newTop])
  | .incSize, _ => some ({ s with size := s.size + 1 }, [])
  -- Pop
  | .tagPop, _ => some (s.draw, [.decSize ⟨0, false, s.getTagCnt⟩])
  | .decSize newTop, _ =>
    if s.size ≤ 0 then some ({ s with size := s.size - 1 }, [.undoSize])
    else some ({ s with size := s.size - 1 }, [.readOld newTop])
  | .undoSize, _ => some ({ s with size := s.size + 1 }, [])
  | .readOld newTop, _ => some (s, [.readNext newTop s.top])
  | .readNext newTop oldTop, _ =>
    some (s, [.casPop (newTop.setPtr (s.next oldTop.index)) oldTop])
  | .casPop newTop oldTop, _ =>
    if s.top = oldTop then
      some ({ s with top := newTop, history := s.history ++ [.pop (s.data oldTop.index)] },
        [.readData oldTop.index (s.data oldTop.index)])
    else some (s, [.readOld newTop])
  | .readData node v, _ => some (s, [.free node v (s.data node)])
  | .free node v returnData, _ => some ({ s with pool := node :: s.pool }, [.ret v returnData])
  | .ret v returnData, _ => some ({ s with returned := s.returned ++ [(v, returnData)] }, [])

/-- One statement; a thread stays where it dereferences `nullptr`. -/
def exec (s : Stack T) (f : Frame T) (a : Act T) : Option (Stack T × List (Frame T)) :=
  if f.deref = some 0 then some ({ s with fault := true }, [f]) else stmt s f a

/-- The functions of `LockFreeStack`. -/
def program : Program (Stack T) (Frame T) (Act T) := ⟨call, exec⟩

/-- The runs of a stack. -/
def system (data : ℕ → T) (next : ℕ → ℕ) : Lts (Threads (Stack T) (Frame T)) (ℕ × Act T) :=
  program.lts (initStack data next)

end NetworkLibrary.LockFreeStack
