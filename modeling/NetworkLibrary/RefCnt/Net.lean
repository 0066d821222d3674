import NetworkLibrary.Session.Slot
import Mathlib.Logic.Function.Basic

/-!
# Packets and sessions

What happens to the packets of a server: the application's calls of `AllocPacket`, `IncrementRef`,
`FreePacket` and `SendPacket`, and what `SendPost`, the send completions, `InitSession` and
`ReleaseSession` do with `SendQ` and `SendBuffer`, for all sessions of `SessionArr` and any number
of threads. Each thread may work on any session, and a callback may call into any other one.

The statements of a session that concern no packet are those of its `Slot`; the others take the
place of a statement of the slot that stands for several. `SendQ` is an ideal queue and the pool
hands out any packet that it has. A packet is a number. The receive path gets its packets with
`AllocPacket` and gives them up with `FreePacket`; these are calls like any other, and the model has
them as calls of the application. So is the use of a packet in a callback.
-/

namespace NetworkLibrary.RefCnt

open Foundations Session

/-! ## State -/

/-- The fields of `Session` that packets go through, beside its slot. -/
structure SessionState where
  slot : Slot
  sendFlag : Bool
  sendQ : List ℕ
  /-- `SendBuffer`, at the indices below 1000 as long as at most 1000 packets are sent at once. -/
  sendBuffer : ℕ → ℕ
  sendPacketCnt : ℕ

/-- The sessions and the packets. -/
structure Net where
  sessions : UInt16 → SessionState
  /-- `RefCnt` of each packet. -/
  refCnt : ℕ → UInt32
  /-- How often a packet is in the pool. -/
  pool : ℕ → ℕ
  /-- The handles that the application has on a packet: one for each `AllocPacket` and
  `IncrementRef`, up to the `FreePacket` that gives it up. -/
  handles : ℕ → ℕ
  /-- How often the pool has handed out a packet. -/
  allocs : ℕ → ℕ
  /-- How often a packet has gone back to the pool. -/
  frees : ℕ → ℕ

/-- The sessions as `Start` leaves them, before any packet is in use. -/
def start (sendBuffer : UInt16 → ℕ → ℕ) : Net where
  sessions k := ⟨Session.start k, false, [], sendBuffer k, 0⟩
  refCnt _ := 0
  pool _ := 1
  handles _ := 0
  allocs _ := 0
  frees _ := 0

/-- `FindSession(sessionID)`. -/
def findSession (sessionID : ℕ) : UInt16 := UInt16.ofNat (sessionID >>> 48)

namespace SessionState

/-- The packets in `SendBuffer[0..SendPacketCnt)`. -/
def buffer (s : SessionState) : List ℕ := (List.range s.sendPacketCnt).map s.sendBuffer

end SessionState

/-! ## Running functions -/

/-- The functions that run on a session, by the statement they are about to execute. -/
inductive Stmt
  /-- A statement of the slot. -/
  | slot (f : Session.Frame)
  /-- `SendPacket`: `session->IncrementSessionRef()`. -/
  | sendInc (id packet : ℕ)
  /-- `session->ReleaseArr[0] == FALSE`. -/
  | sendFlag (id packet : ℕ)
  /-- `session->SessionID == sessionID`. -/
  | sendID (id packet : ℕ)
  /-- `packet->IncrementRef()`. -/
  | sendRef (id g packet : ℕ)
  /-- `Encoder->Encode(*packet)`. -/
  | sendEncode (id g packet : ℕ)
  /-- `session->SendQ.Enqueue(packet)`. -/
  | sendEnqueue (id g packet : ℕ)
  /-- `SendPost`: `if (session->SendFlag.exchange(1) == 1)`. -/
  | exchange (g : ℕ)
  /-- `packetCnt = session->SendQ.GetUseSize()` and `while (!packetCnt)`. -/
  | useSize (g : ℕ)
  /-- `session->SendFlag = 0`. -/
  | clearFlag (g : ℕ)
  /-- `if (session->SendQ.GetUseSize())`. -/
  | recheck (g : ℕ)
  /-- `if (session->SendFlag.exchange(1) == 0)`. -/
  | retake (g : ℕ)
  /-- `while (packetCnt--)`: `session->SendQ.Dequeue(tmpPacket)`, and behind the loop
  `session->SendPacketCnt = wsabufCnt`. -/
  | drain (g packetCnt : ℕ) (wsabuf : List ℕ)
  /-- `session->SendBuffer[wsabufCnt] = tmpPacket`. -/
  | store (g packetCnt : ℕ) (wsabuf : List ℕ) (tmpPacket : ℕ)
  /-- A send of more than 0 bytes: `tmpPacketCnt = targetSession->SendPacketCnt`. -/
  | sentCnt (g : ℕ)
  /-- `for (int i = 0; i < tmpPacketCnt; i++)`: `FreePacket(targetSession->SendBuffer[i])`, and
  behind the loop `targetSession->SendPacketCnt = 0`. -/
  | sentLoop (g i tmpPacketCnt : ℕ)
  /-- `targetSession->SendFlag = 0`. -/
  | sentFlag (g : ℕ)
  /-- `ReleaseSession`: `while (session->SendQ.Dequeue(packet)) FreePacket(packet)`. -/
  | relQueue (g : ℕ)
  /-- `remainSize = session->SendPacketCnt`. -/
  | relCnt (g : ℕ)
  /-- `for (int i = 0; i < remainSize; i++)`: `FreePacket(session->SendBuffer[i])`, and behind the
  loop `session->SendPacketCnt = 0`. -/
  | relLoop (g i remainSize : ℕ)
  /-- `InitSession`: `session->SendFlag = 0`. -/
  | initFlag (g : ℕ)
  /-- `session->SendPacketCnt = 0`. -/
  | initCnt (g : ℕ)
  /-- `session->SendQ.Clear()`. -/
  | initQueue (g : ℕ)
  deriving DecidableEq

/-- The running functions: those of the sessions, and those of the packets. -/
inductive Frame
  | session (k : UInt16) (st : Stmt)
  /-- `AllocPacket`: `packet->Clear()` and `packet->IncrementRef()`. -/
  | allocRef (packet : ℕ)
  /-- `FreePacket`: `if (packet->DecrementRef() != 0)`. -/
  | decRef (packet : ℕ)
  /-- `packetPool->Free(packet)`. -/
  | toPool (packet : ℕ)
  deriving DecidableEq

/-- The calls of the application, on idle threads and in callbacks. -/
inductive UserCall
  | killSession (id : ℕ)
  | sendPacket (id packet : ℕ)
  /-- `AllocPacket`, when the pool hands out this packet. -/
  | allocPacket (packet : ℕ)
  | incrementRef (packet : ℕ)
  | freePacket (packet : ℕ)
  deriving DecidableEq

/-- The labels: a call, or the answer to the statement that is executed (see `Session.Act`). -/
inductive Act
  | next
  | user (c : UserCall)
  /-- A connection arrives and `GetFreeSession` pops the session. -/
  | accept (k : UInt16)
  /-- A worker gets a completion or a notification of the session. -/
  | recvDone (k : UInt16) (j transferred : ℕ)
  | sendDone (k : UInt16) (j transferred : ℕ)
  | note (k : UInt16) (j : ℕ)
  | draw (n : ℕ)
  | posted
  | refused
  | none
  | invalid
  deriving DecidableEq

/-- The answer to a statement of a slot. -/
def Act.answer : Act → Session.Act
  | .draw n => .draw n
  | .posted => .posted
  | .refused => .refused
  | .none => .none
  | .invalid => .invalid
  | _ => .next

/-! ## The statements -/

/-- How a function goes on that the slot continues with the given statement. -/
def Stmt.ofFrame : Session.Frame → Stmt
  | .sent g => .sentCnt g
  | .postFlag g => .exchange g
  | .relDrain g => .relQueue g
  | .initQueues g => .initFlag g
  | f => .slot f

/-- How `SendPacket` goes on with its packet. -/
def Stmt.ofSendPacket (packet : ℕ) : Session.Frame → Stmt
  | .sendFlag id => .sendFlag id packet
  | .sendID id => .sendID id packet
  | .sendEnqueue id g => .sendRef id g packet
  | f => .slot f

/-- What a statement does: to its session, to a packet, and how the function goes on. -/
structure Effect where
  session : SessionState
  /-- The packet whose `IncrementRef` it is. -/
  incRef : Option ℕ := none
  /-- The packet that `FreePacket` is called for. -/
  freePacket : Option ℕ := none
  next : List Stmt

/-- A statement of the slot. The sessions share `SessionIDCnt`, so that for one of them the value
drawn may be any. -/
def SessionState.runSlot (s : SessionState) (f : Session.Frame) (a : Session.Act)
    (next : Session.Frame → Stmt) : Option Effect :=
  (Session.exec .netClient s.slot f a).map fun r =>
    { session := { s with slot := r.1 }, next := r.2.map next }

/-- The statements of a session. When `Dequeue` fails in `SendPost`, the code calls `Crash`, which
ends the process: there is no step for it. -/
def execSession (s : SessionState) : Stmt → Session.Act → Option Effect
  | .slot f, a => s.runSlot f a .ofFrame
  -- SendPacket
  | .sendInc id p, a => s.runSlot (.sendInc id) a (.ofSendPacket p)
  | .sendFlag id p, a => s.runSlot (.sendFlag id) a (.ofSendPacket p)
  | .sendID id p, a => s.runSlot (.sendID id) a (.ofSendPacket p)
  | .sendRef id g p, _ => some { session := s, incRef := some p, next := [.sendEncode id g p] }
  | .sendEncode id g p, _ => some { session := s, next := [.sendEnqueue id g p] }
  | .sendEnqueue id g p, _ =>
    some { session := { s with sendQ := s.sendQ ++ [p] }, next := [.slot (.sendPost id g)] }
  -- SendPost
  | .exchange g, _ =>
    if s.sendFlag = true then
      some { session := { s with sendFlag := true }, next := [.slot (.postUndo g)] }
    else some { session := { s with sendFlag := true }, next := [.useSize g] }
  | .useSize g, _ =>
    if s.sendQ.length = 0 then some { session := s, next := [.clearFlag g] }
    else some { session := s, next := [.drain g s.sendQ.length []] }
  | .clearFlag g, _ => some { session := { s with sendFlag := false }, next := [.recheck g] }
  | .recheck g, _ =>
    if s.sendQ.length ≠ 0 then some { session := s, next := [.retake g] }
    else some { session := s, next := [.slot (.postUndo g)] }
  | .retake g, _ =>
    if s.sendFlag = false then
      some { session := { s with sendFlag := true }, next := [.useSize g] }
    else some { session := { s with sendFlag := true }, next := [.slot (.postUndo g)] }
  | .drain g packetCnt wsabuf, _ =>
    if packetCnt = 0 then
      some { session := { s with sendPacketCnt := wsabuf.length }, next := [.slot (.wsaSend g)] }
    else
      match s.sendQ with
      | p :: sendQ =>
        some { session := { s with sendQ := sendQ }, next := [.store g (packetCnt - 1) wsabuf p] }
      | [] => none
  | .store g packetCnt wsabuf p, _ =>
    some {
      session := { s with sendBuffer := Function.update s.sendBuffer wsabuf.length p }
      next := [.drain g packetCnt (wsabuf ++ [p])] }
  -- WorkerThread, send completion
  | .sentCnt g, _ => some { session := s, next := [.sentLoop g 0 s.sendPacketCnt] }
  | .sentLoop g i n, _ =>
    if i < n then
      some { session := s, freePacket := some (s.sendBuffer i), next := [.sentLoop g (i + 1) n] }
    else some { session := { s with sendPacketCnt := 0 }, next := [.sentFlag g] }
  | .sentFlag g, _ => some { session := { s with sendFlag := false }, next := [.slot (.postInc g)] }
  -- ReleaseSession
  | .relQueue g, _ =>
    match s.sendQ with
    | p :: sendQ =>
      some { session := { s with sendQ := sendQ }, freePacket := some p, next := [.relQueue g] }
    | [] => some { session := s, next := [.relCnt g] }
  | .relCnt g, _ => some { session := s, next := [.relLoop g 0 s.sendPacketCnt] }
  | .relLoop g i n, _ =>
    if i < n then
      some { session := s, freePacket := some (s.sendBuffer i), next := [.relLoop g (i + 1) n] }
    else some { session := { s with sendPacketCnt := 0 }, next := [.slot (.relPush g)] }
  -- InitSession
  | .initFlag g, _ => some { session := { s with sendFlag := false }, next := [.initCnt g] }
  | .initCnt g, _ => some { session := { s with sendPacketCnt := 0 }, next := [.initQueue g] }
  | .initQueue g, _ => some { session := { s with sendQ := [] }, next := [.slot (.initInc g)] }

/-- The call of a function of a session. -/
def Net.callSession (n : Net) (k : UInt16) (a : Session.Act) : Option (Net × List Frame) :=
  (Session.call (n.sessions k).slot a).map fun r =>
    ({ n with sessions := Function.update n.sessions k { n.sessions k with slot := r.1 } },
      r.2.map fun f => .session k (.ofFrame f))

/-- The calls of the application. -/
def userCall (n : Net) : UserCall → Option (Net × List Frame)
  | .killSession id => some (n, [.session (findSession id) (.slot (.killInc id))])
  | .sendPacket id p => some (n, [.session (findSession id) (.sendInc id p)])
  | .allocPacket p =>
    if 0 < n.pool p then
      some ({ n with
        pool := Function.update n.pool p (n.pool p - 1)
        allocs := Function.update n.allocs p (n.allocs p + 1) }, [.allocRef p])
    else none
  | .incrementRef p =>
    some ({ n with
      refCnt := Function.update n.refCnt p (n.refCnt p + 1)
      handles := Function.update n.handles p (n.handles p + 1) }, [])
  | .freePacket p =>
    some ({ n with handles := Function.update n.handles p (n.handles p - 1) }, [.decRef p])

/-- The calls of an idle thread. -/
def call (n : Net) : Act → Option (Net × List Frame)
  | .user c => userCall n c
  | .accept k => n.callSession k .accept
  | .recvDone k j m => n.callSession k (.recvDone j m)
  | .sendDone k j m => n.callSession k (.sendDone j m)
  | .note k j => n.callSession k (.note j)
  | _ => none

/-- The application is called back. -/
def Stmt.inCallback : Stmt → Bool
  | .slot (.inJoin _) | .slot (.inRecv _) | .slot (.inLeave _) => true
  | _ => false

/-- What a statement of a session does to all of them and to the packets. -/
def Net.apply (n : Net) (k : UInt16) (e : Effect) : Net × List Frame :=
  ({ n with
      sessions := Function.update n.sessions k e.session
      refCnt := match e.incRef with
        | some p => Function.update n.refCnt p (n.refCnt p + 1)
        | none => n.refCnt },
    (e.freePacket.map Frame.decRef).toList ++ e.next.map (.session k))

/-- The statements. -/
def exec (n : Net) : Frame → Act → Option (Net × List Frame)
  | .session k st, .user c =>
    if st.inCallback then (userCall n c).map fun r => (r.1, r.2 ++ [.session k st])
    else none
  | .session k st, a => (execSession (n.sessions k) st a.answer).map (n.apply k)
  | .allocRef p, _ =>
    some ({ n with
      refCnt := Function.update n.refCnt p (n.refCnt p + 1)
      handles := Function.update n.handles p (n.handles p + 1) }, [])
  | .decRef p, _ =>
    some ({ n with refCnt := Function.update n.refCnt p (n.refCnt p - 1) },
      if n.refCnt p - 1 ≠ 0 then [] else [.toPool p])
  | .toPool p, _ =>
    some ({ n with
      pool := Function.update n.pool p (n.pool p + 1)
      frees := Function.update n.frees p (n.frees p + 1) }, [])

/-- The functions of a server. -/
def program : Program Net Frame Act := ⟨call, exec⟩

/-- The runs of a server. -/
def system (sendBuffer : UInt16 → ℕ → ℕ) : Lts (Threads Net Frame) (ℕ × Act) :=
  program.lts (start sendBuffer)

end NetworkLibrary.RefCnt
