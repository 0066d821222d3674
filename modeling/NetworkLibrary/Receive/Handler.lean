import NetworkLibrary.Packet.XorPacketEncoder
import NetworkLibrary.Foundations.Transition

/-!
# The receive handler

`WorkerThread`'s handler of a receive completion with `CheckPacketMessageComplete`,
`GetPacketMessage` and `RecvPost`, which `NetServer` and `NetClient` share word for word. The
handler runs while it holds a reference of the session and is the only one to use `RecvQ`; what
else happens to the session is left out, except that `KillSession` clears `SessionUseFlag`, after
which `RecvPost` posts no further receive. `OnRecv` does not kill the session.
-/

namespace NetworkLibrary.Receive

open Foundations

/-! ## Packets from the pool -/

/-- A packet of the pool, which constructs its packets with the default size. -/
structure PooledPacket extends Packet where
  size : bufferSize = Packet.kBufferDefault

/-- `AllocPacket`. -/
def allocPacket (pooled : PooledPacket) : Packet := pooled.toPacket.clear.incrementRef

/-! ## One message -/

variable (enc : XorPacketEncoder)

/-- `CheckPacketMessageComplete`: its answer, and whether it calls `KillSession`. -/
def checkPacketMessageComplete (recvQ : Packet) : Bool × Bool :=
  -- the cast of an `int` to `DWORD`
  let packetUseSize := (recvQ.getDataSize % 2 ^ 32).toNat
  if packetUseSize ≤ XorPacketEncoder.headerSize then (false, false)
  else if !enc.verifyHeaderMagic recvQ.buffer recvQ.getReadBufferPtr then (false, true)
  else
    match enc.peekPayloadLength recvQ.buffer recvQ.getReadBufferPtr with
    | none => (false, true)
    | some payloadLen =>
      if packetUseSize < XorPacketEncoder.headerSize + payloadLen then (false, false)
      else (true, false)

/-- The ways `GetPacketMessage` ends. -/
inductive Message
  | ok (packet recvQ : Packet)
  | decodeFailed (recvQ : Packet)
  | crash

def getPacketMessage (packet recvQ : Packet) : Message :=
  match enc.peekPayloadLength recvQ.buffer recvQ.getReadBufferPtr with
  | none => .decodeFailed recvQ
  | some payloadLen =>
    match enc.decode recvQ with
    | (false, recvQ) => .decodeFailed recvQ
    | (true, recvQ) =>
      let (retval, bytes, recvQ) := recvQ.getData payloadLen
      let packet := packet.fill bytes packet.getWriteBufferPtr
      if retval ≠ payloadLen then .crash else .ok (packet.moveWritePos payloadLen).2 recvQ

/-! ## The handler -/

/-- What the handler does to the application and to the session. -/
inductive Output
  /-- `OnRecv` with a packet that holds these bytes. -/
  | onRecv (payload : List UInt8)
  | killSession
  | crash
  deriving DecidableEq

/-- The receive side of a session. -/
structure RecvSide where
  recvQ : Packet
  sessionUseFlag : Bool
  crashed : Bool
  outputs : List Output

/-- The receive side after `InitSession`; `memory` is what the buffer of `RecvQ` held before. -/
def initSession (memory : ℤ → UInt8) : RecvSide where
  recvQ := (Packet.new 4096 memory).clear
  sessionUseFlag := true
  crashed := false
  outputs := []

namespace RecvSide

@[simps] def killSession (s : RecvSide) (recvQ : Packet) : RecvSide :=
  { s with recvQ := recvQ, sessionUseFlag := false, outputs := s.outputs ++ [.killSession] }

@[simps] def crash (s : RecvSide) : RecvSide :=
  { s with crashed := true, outputs := s.outputs ++ [.crash] }

@[simps] def onRecv (s : RecvSide) (packet recvQ : Packet) : RecvSide :=
  { s with recvQ := recvQ, outputs := s.outputs ++ [.onRecv packet.data] }

/-- `RecvPost`: the offset and the size of the memory it hands to `WSARecv`. -/
def recvPost (s : RecvSide) : Option (ℤ × ℤ) :=
  if s.crashed then none
  else if s.sessionUseFlag = false then none
  else some (s.recvQ.getWriteBufferPtr, s.recvQ.getFreeSize)

end RecvSide

/-- The packets that `AllocPacket` returns, in their order: one for each output. -/
abbrev Pool := ℕ → PooledPacket

variable (pool : Pool)

/-- `while (1)` of the handler; `none` when the fuel does not suffice. -/
def recvLoop : ℕ → RecvSide → Option RecvSide
  | 0, _ => none
  | fuel + 1, s =>
    match checkPacketMessageComplete enc s.recvQ with
    | (false, false) => some s
    | (false, true) => some (s.killSession s.recvQ)
    | (true, _) =>
      match getPacketMessage enc (allocPacket (pool s.outputs.length)) s.recvQ with
      | .crash => some s.crash
      | .decodeFailed recvQ => some (s.killSession recvQ)
      | .ok packet recvQ => recvLoop fuel (s.onRecv packet recvQ)

/-- `RecvQ` when the loop starts: the kernel has written the bytes behind `Rear`. -/
def received (recvQ : Packet) (bytes : List UInt8) : Packet :=
  ((recvQ.fill bytes recvQ.getWriteBufferPtr).moveWritePos bytes.length).2

/-- `RecvQ` when the receive is posted again. -/
def rewind (recvQ : Packet) : Packet :=
  if recvQ.getDataSize ≠ 0 then recvQ.shiftDataToFront else recvQ.clear

/-- The handler of a receive completion that brings `bytes`. -/
def recvHandler (s : RecvSide) (bytes : List UInt8) : Option RecvSide :=
  let recvQ := received s.recvQ bytes
  (recvLoop enc pool (recvQ.getDataSize.toNat + 1) { s with recvQ := recvQ }).map fun s =>
    if s.crashed then s else { s with recvQ := rewind s.recvQ }

/-- The receive side of a session: a posted receive completes with at least one byte and at most
as many as were posted. -/
def receiving : Lts RecvSide (List UInt8) where
  init s := ∃ memory, s = initSession memory
  step s bytes :=
    match s.recvPost with
    | none => none
    | some (_, len) =>
      if 1 ≤ bytes.length ∧ bytes.length ≤ len then recvHandler enc pool s bytes else none

end NetworkLibrary.Receive
