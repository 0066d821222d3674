import NetworkLibrary.Foundations.Threads
import Mathlib.Data.Nat.Bitwise

/-!
# A session slot

The life of one element of `SessionArr`: `GetFreeSession`, `InitSession`, `KillSession`,
`SendPacket`, `RecvPost`, `SendPost`, the worker's completion handlers, `DisconnectSession` and
`ReleaseSession`, run by any number of threads. `NetServer` and `NetClient` have the same code for
all of these (`AcceptThread` after `accept` and `Connect` after `connect` are the same statements);
they differ in who calls `GenerateSessionID`.

Every interlocked operation and every read or write of a word that another thread uses is one
step. What the slot's life does not depend on is chosen by the label of the step: the bytes a
receive brings, whether the parser finds a message in them, whether `SendQ` holds a packet, and
the answers of `WSARecv` and `WSASend`. An overlapped operation counts as outstanding until
`GetQueuedCompletionStatus` hands its completion to a worker.
-/

namespace NetworkLibrary.Session

open Foundations

/-! ## State -/

/-- Which class the slot belongs to. -/
inductive Host
  | netServer
  | netClient
  deriving DecidableEq

/-- The callbacks of the application, as their call and their return. -/
inductive Event
  | onClientJoin
  | onClientJoinReturn
  | onRecv
  | onRecvReturn
  | onClientLeave
  | onClientLeaveReturn
  deriving DecidableEq

/-- A callback: the session ID it was given, and the generation of the slot it is about. -/
structure Callback where
  gen : ℕ
  event : Event
  sessionID : ℕ
  deriving DecidableEq

/-- An outstanding overlapped operation, with the generation it was posted for. -/
structure Overlapped where
  gen : ℕ
  /-- A `CancelIoEx` has been issued since it was posted. -/
  cancelled : Bool
  deriving DecidableEq

/-- The slot: the fields of `Session` that its life depends on, the operations that the
completion port holds for it, and the record of the run. The generations of a slot are numbered
from 0 in the order in which `InitSession` gives them their ID. -/
structure Slot where
  sessionUseFlag : Bool
  /-- `ReleaseArr[0]`, true when the slot is released. -/
  releaseFlag : Bool
  /-- `ReleaseArr[1]`. -/
  refCnt : ℤ
  sessionID : ℕ
  /-- `SessionIDCnt` of the class. -/
  sessionIDCnt : ℕ
  /-- How often the slot is on `FreeSessionStack`. -/
  freeCnt : ℕ
  recvs : List Overlapped
  sends : List Overlapped
  /-- The notifications `SendPacket` has posted, each with the generation it was posted for. -/
  notes : List ℕ
  /-- The ID of each generation. -/
  issued : List ℕ
  /-- The generations released, each with the ID given to the `KillSession` that released it, if
  it was one. -/
  released : List (ℕ × Option ℕ)
  trace : List Callback
  deriving DecidableEq

/-- The slot as `Start` leaves it. -/
def start (slot : UInt16) : Slot where
  sessionUseFlag := false
  releaseFlag := true
  refCnt := 0
  sessionID := slot.toNat <<< 48
  sessionIDCnt := 0
  freeCnt := 1
  recvs := []
  sends := []
  notes := []
  issued := []
  released := []
  trace := []

/-- The running functions, by the statement they are about to execute; `id` is the argument
`sessionID`, `g` the generation a function works on. A function that calls `RecvPost` or
`SendPost` is represented by the callee's statement while the call runs. -/
inductive Frame
  /-- `KillSession`: `session->IncrementSessionRef()`. -/
  | killInc (id : ℕ)
  /-- `session->ReleaseArr[0] == FALSE`. -/
  | killFlag (id : ℕ)
  /-- `session->SessionID == sessionID`. -/
  | killID (id : ℕ)
  /-- `session->SessionUseFlag = false`. -/
  | killUse (id g : ℕ)
  /-- `CancelIoEx(session->Socket, nullptr)`. -/
  | killCancel (id g : ℕ)
  /-- `if (session->DecrementSessionRef() == 0) DisconnectSession(session)`. -/
  | killDec (id g : ℕ)
  /-- The `else` branch of `KillSession` and of `SendPacket`: `session->DecrementSessionRef()`. -/
  | staleDec (id : ℕ)
  /-- `SendPacket`: `session->IncrementSessionRef()`. -/
  | sendInc (id : ℕ)
  /-- `session->ReleaseArr[0] == FALSE`. -/
  | sendFlag (id : ℕ)
  /-- `session->SessionID == sessionID`. -/
  | sendID (id : ℕ)
  /-- `IncrementRef`, `Encode` and `SendQ.Enqueue` of the packet. -/
  | sendEnqueue (id g : ℕ)
  /-- `PostQueuedCompletionStatus`. -/
  | sendPost (id g : ℕ)
  /-- `DisconnectSession`: `InterlockedCompareExchange128`; `caller` is the argument of the
  `KillSession` that called it. -/
  | discCas (caller : Option ℕ)
  /-- `OnClientLeave(session->SessionID)`. -/
  | discLeave (g : ℕ)
  /-- Inside `OnClientLeave`. -/
  | inLeave (g : ℕ)
  /-- `ReleaseSession`: `session->SessionID &= 0xffff000000000000`. -/
  | relMask (g : ℕ)
  /-- `closesocket(session->Socket)`. -/
  | relClose (g : ℕ)
  /-- The packets left in `SendQ` and `SendBuffer` are freed. -/
  | relDrain (g : ℕ)
  /-- `FreeSessionStack.Push(session)`. -/
  | relPush (g : ℕ)
  /-- `InitSession`: `session->SessionUseFlag = true`. -/
  | initUse
  /-- `GenerateSessionID()`. -/
  | initDraw
  /-- `session->SessionID |= n`. -/
  | initID (n : ℕ)
  /-- `SendFlag = 0`, `SendPacketCnt = 0`, `RecvQ.Clear()`, `SendQ.Clear()`. -/
  | initQueues (g : ℕ)
  /-- `session->IncrementSessionRef()`. -/
  | initInc (g : ℕ)
  /-- `session->ReleaseArr[0] = FALSE`. -/
  | initActive (g : ℕ)
  /-- `AcceptThread` and `Connect`: the socket and its completion port. -/
  | openSocket (g : ℕ)
  /-- `OnClientJoin(session->SessionID)`. -/
  | openJoin (g : ℕ)
  /-- Inside `OnClientJoin`. -/
  | inJoin (g : ℕ)
  /-- `RecvPost`: `session->SessionUseFlag == false`. -/
  | recvUse (g : ℕ)
  /-- `RecvQ.GetWriteBufferPtr()` and `RecvQ.GetFreeSize()`. -/
  | recvBuf (g : ℕ)
  /-- `session->IncrementSessionRef()`. -/
  | recvInc (g : ℕ)
  /-- `WSARecv`. -/
  | wsaRecv (g : ℕ)
  /-- `WSARecv` was refused: `session->DecrementSessionRef()`. -/
  | recvUndo (g : ℕ)
  /-- `session->SessionUseFlag == false` after the post. -/
  | recvRecheck (g : ℕ)
  /-- `CancelIoEx(session->Socket, nullptr)`. -/
  | recvCancel (g : ℕ)
  /-- `WorkerThread`, a receive of more than 0 bytes: `RecvQ.MoveWritePos(transferred)`. -/
  | recvMove (g : ℕ)
  /-- `CheckPacketMessageComplete`. -/
  | recvCheck (g : ℕ)
  /-- `AllocPacket` and `GetPacketMessage`. -/
  | recvGet (g : ℕ)
  /-- `OnRecv(targetSession->SessionID, packet)`. -/
  | recvCall (g : ℕ)
  /-- Inside `OnRecv`. -/
  | inRecv (g : ℕ)
  /-- `RecvQ.ShiftDataToFront()` or `RecvQ.Clear()`. -/
  | recvShift (g : ℕ)
  /-- A send of more than 0 bytes: the packets of `SendBuffer` are freed, `SendFlag = 0`. -/
  | sent (g : ℕ)
  /-- Before `SendPost`: `targetSession->IncrementSessionRef()`. -/
  | postInc (g : ℕ)
  /-- `SendPost`: `session->SessionUseFlag == false`. -/
  | postUse (g : ℕ)
  /-- `SendFlag` and `SendQ`. -/
  | postFlag (g : ℕ)
  /-- `WSASend`. -/
  | wsaSend (g : ℕ)
  /-- `SendPost` returned false: `targetSession->DecrementSessionRef()`. -/
  | postUndo (g : ℕ)
  /-- `session->SessionUseFlag == false` after the post. -/
  | postRecheck (g : ℕ)
  /-- `CancelIoEx(session->Socket, nullptr)`. -/
  | postCancel (g : ℕ)
  /-- The end of `AcceptThread`'s, `Connect`'s and `WorkerThread`'s work on the session:
  `if (session->DecrementSessionRef() == 0) DisconnectSession(session)`. -/
  | endDec (g : ℕ)
  deriving DecidableEq

/-- The labels: the call an idle thread makes, or the answer to the statement that is executed
(`next` where there is nothing to answer). -/
inductive Act
  | next
  /-- A thread calls `KillSession`. -/
  | killSession (id : ℕ)
  /-- A thread calls `SendPacket`. -/
  | sendPacket (id : ℕ)
  /-- A connection arrives and `GetFreeSession` pops this slot. -/
  | accept
  /-- A connection takes its ID for another slot. -/
  | otherSlot
  /-- The value of `GenerateSessionID`. -/
  | draw (n : ℕ)
  /-- A worker gets the completion of the outstanding receive with the given index. -/
  | recvDone (k : ℕ) (transferred : ℕ)
  /-- A worker gets the completion of the outstanding send with the given index. -/
  | sendDone (k : ℕ) (transferred : ℕ)
  /-- A worker gets the posted notification with the given index. -/
  | note (k : ℕ)
  /-- `WSARecv` or `WSASend` accepts the operation. -/
  | posted
  /-- `WSARecv` or `WSASend` fails with 10004, 10022, 10053 or 10054. -/
  | refused
  /-- The parser finds no whole message; `SendPost` finds nothing to send. -/
  | none
  /-- The parser finds the header or the message invalid. -/
  | invalid
  deriving DecidableEq

/-! ## The statements -/

namespace Slot

/-- A callback is called or returns. -/
@[simps] def log (s : Slot) (g : ℕ) (e : Event) (id : ℕ) : Slot :=
  { s with trace := s.trace ++ [⟨g, e, id⟩] }

/-- `CancelIoEx` on the session's socket. -/
@[simps] def cancelIoEx (s : Slot) : Slot :=
  { s with recvs := s.recvs.map ({ · with cancelled := true })
           sends := s.sends.map ({ · with cancelled := true }) }

/-- The generation in the slot. -/
def gen (s : Slot) : ℕ := s.issued.length - 1

end Slot

/-- The calls of an idle thread. -/
def call (s : Slot) : Act → Option (Slot × List Frame)
  | .killSession id => some (s, [.killInc id])
  | .sendPacket id => some (s, [.sendInc id])
  | .accept => if 0 < s.freeCnt then some ({ s with freeCnt := s.freeCnt - 1 }, [.initUse]) else none
  | .otherSlot => some ({ s with sessionIDCnt := s.sessionIDCnt + 1 }, [])
  | .recvDone k n =>
    match s.recvs[k]? with
    | some o =>
      if n = 0 then some ({ s with recvs := s.recvs.eraseIdx k }, [.endDec o.gen])
      else some ({ s with recvs := s.recvs.eraseIdx k }, [.recvMove o.gen])
    | none => none
  | .sendDone k n =>
    match s.sends[k]? with
    | some o =>
      if n = 0 then some ({ s with sends := s.sends.eraseIdx k }, [.endDec o.gen])
      else some ({ s with sends := s.sends.eraseIdx k }, [.sent o.gen])
    | none => none
  | .note k =>
    match s.notes[k]? with
    | some g => some ({ s with notes := s.notes.eraseIdx k }, [.postInc g])
    | none => none
  | _ => none

/-- The statements. In a callback the application may call `KillSession` and `SendPacket`. An
answer of `WSARecv` or `WSASend` other than those of `Act` makes the code call `Crash`, which ends
the process: there is no step for it. -/
def exec (host : Host) (s : Slot) : Frame → Act → Option (Slot × List Frame)
  -- KillSession
  | .killInc id, _ => some ({ s with refCnt := s.refCnt + 1 }, [.killFlag id])
  | .killFlag id, _ => if s.releaseFlag = false then some (s, [.killID id]) else some (s, [.staleDec id])
  | .killID id, _ =>
    if s.sessionID = id then some (s, [.killUse id s.gen]) else some (s, [.staleDec id])
  | .killUse id g, _ => some ({ s with sessionUseFlag := false }, [.killCancel id g])
  | .killCancel id g, _ => some (s.cancelIoEx, [.killDec id g])
  | .killDec id _, _ =>
    if s.refCnt - 1 = 0 then some ({ s with refCnt := s.refCnt - 1 }, [.discCas (some id)])
    else some ({ s with refCnt := s.refCnt - 1 }, [])
  | .staleDec _, _ => some ({ s with refCnt := s.refCnt - 1 }, [])
  -- SendPacket
  | .sendInc id, _ => some ({ s with refCnt := s.refCnt + 1 }, [.sendFlag id])
  | .sendFlag id, _ => if s.releaseFlag = false then some (s, [.sendID id]) else some (s, [.staleDec id])
  | .sendID id, _ =>
    if s.sessionID = id then some (s, [.sendEnqueue id s.gen]) else some (s, [.staleDec id])
  | .sendEnqueue id g, _ => some (s, [.sendPost id g])
  | .sendPost _ g, _ => some ({ s with notes := s.notes ++ [g] }, [])
  -- DisconnectSession and ReleaseSession
  | .discCas caller, _ =>
    if s.releaseFlag = false ∧ s.refCnt = 0 then
      some ({ s with releaseFlag := true, released := s.released ++ [(s.gen, caller)] },
        [.discLeave s.gen])
    else some (s, [])
  | .discLeave g, _ => some (s.log g .onClientLeave s.sessionID, [.inLeave g])
  | .inLeave g, .killSession id => some (s, [.killInc id, .inLeave g])
  | .inLeave g, .sendPacket id => some (s, [.sendInc id, .inLeave g])
  | .inLeave g, _ => some (s.log g .onClientLeaveReturn s.sessionID, [.relMask g])
  | .relMask g, _ => some ({ s with sessionID := s.sessionID &&& 0xffff000000000000 }, [.relClose g])
  | .relClose g, _ => some (s, [.relDrain g])
  | .relDrain g, _ => some (s, [.relPush g])
  | .relPush _, _ => some ({ s with freeCnt := s.freeCnt + 1 }, [])
  -- InitSession
  | .initUse, _ => some ({ s with sessionUseFlag := true }, [.initDraw])
  | .initDraw, .draw n =>
    -- `Connect` may run on several threads, and `++SessionIDCnt` is not atomic: any value
    if host = .netClient ∨ n = s.sessionIDCnt + 1 then
      some ({ s with sessionIDCnt := n }, [.initID n])
    else none
  | .initDraw, _ => none
  | .initID n, _ =>
    some ({ s with sessionID := s.sessionID ||| n, issued := s.issued ++ [s.sessionID ||| n] },
      [.initQueues s.issued.length])
  | .initQueues g, _ => some (s, [.initInc g])
  | .initInc g, _ => some ({ s with refCnt := s.refCnt + 1 }, [.initActive g])
  | .initActive g, _ => some ({ s with releaseFlag := false }, [.openSocket g])
  -- AcceptThread and Connect
  | .openSocket g, _ => some (s, [.openJoin g])
  | .openJoin g, _ => some (s.log g .onClientJoin s.sessionID, [.inJoin g])
  | .inJoin g, .killSession id => some (s, [.killInc id, .inJoin g])
  | .inJoin g, .sendPacket id => some (s, [.sendInc id, .inJoin g])
  | .inJoin g, _ => some (s.log g .onClientJoinReturn s.sessionID, [.recvUse g])
  -- RecvPost
  | .recvUse g, _ =>
    if s.sessionUseFlag = false then some (s, [.endDec g]) else some (s, [.recvBuf g])
  | .recvBuf g, _ => some (s, [.recvInc g])
  | .recvInc g, _ => some ({ s with refCnt := s.refCnt + 1 }, [.wsaRecv g])
  | .wsaRecv g, .posted => some ({ s with recvs := s.recvs ++ [⟨g, false⟩] }, [.recvRecheck g])
  | .wsaRecv g, .refused => some (s, [.recvUndo g])
  | .wsaRecv _, _ => none
  | .recvUndo g, _ => some ({ s with refCnt := s.refCnt - 1 }, [.endDec g])
  | .recvRecheck g, _ =>
    if s.sessionUseFlag = false then some (s, [.recvCancel g]) else some (s, [.endDec g])
  | .recvCancel g, _ => some (s.cancelIoEx, [.endDec g])
  -- WorkerThread, receive completion
  | .recvMove g, _ => some (s, [.recvCheck g])
  | .recvCheck g, .none => some (s, [.recvShift g])
  | .recvCheck g, .invalid => some (s, [.killInc s.sessionID, .recvShift g])
  | .recvCheck g, _ => some (s, [.recvGet g])
  | .recvGet g, .invalid => some (s, [.killInc s.sessionID, .recvShift g])
  | .recvGet g, _ => some (s, [.recvCall g])
  | .recvCall g, _ => some (s.log g .onRecv s.sessionID, [.inRecv g])
  | .inRecv g, .killSession id => some (s, [.killInc id, .inRecv g])
  | .inRecv g, .sendPacket id => some (s, [.sendInc id, .inRecv g])
  | .inRecv g, _ => some (s.log g .onRecvReturn s.sessionID, [.recvCheck g])
  | .recvShift g, _ => some (s, [.recvUse g])
  -- WorkerThread, send completion and notification
  | .sent g, _ => some (s, [.postInc g])
  | .postInc g, _ => some ({ s with refCnt := s.refCnt + 1 }, [.postUse g])
  -- SendPost
  | .postUse g, _ =>
    if s.sessionUseFlag = false then some (s, [.postUndo g]) else some (s, [.postFlag g])
  | .postFlag g, .none => some (s, [.postUndo g])
  | .postFlag g, _ => some (s, [.wsaSend g])
  | .wsaSend g, .posted => some ({ s with sends := s.sends ++ [⟨g, false⟩] }, [.postRecheck g])
  | .wsaSend g, .refused => some (s, [.postUndo g])
  | .wsaSend _, _ => none
  | .postUndo g, _ => some ({ s with refCnt := s.refCnt - 1 }, [.endDec g])
  | .postRecheck g, _ =>
    if s.sessionUseFlag = false then some (s, [.postCancel g]) else some (s, [.endDec g])
  | .postCancel g, _ => some (s.cancelIoEx, [.endDec g])
  | .endDec _, _ =>
    if s.refCnt - 1 = 0 then some ({ s with refCnt := s.refCnt - 1 }, [.discCas none])
    else some ({ s with refCnt := s.refCnt - 1 }, [])

/-- The functions of a session. -/
def program (host : Host) : Program Slot Frame Act := ⟨call, exec host⟩

/-- The runs of a slot. -/
def system (host : Host) (slot : UInt16) : Lts (Threads Slot Frame) (ℕ × Act) :=
  (program host).lts (start slot)

end NetworkLibrary.Session
