import NetworkLibrary.ChatServer.Protocol

/-!
# The sessions of `ChatDummyClient`

A worker thread drives a group of sessions with `select`: it connects them, logs them in, lets them
say something from time to time, and parses what the server sends. A session is changed by one
function at a time. `sendBuf` and `recvBuf` are the bytes that they hold; what `rand`,
`GetTickCount` and the random byte of `Encode` return in a call is a `Chance`. The counters of
`WorkerContext` are shared by all sessions and only ever added to, so that each session keeps what
it has added; those that the main thread resets every second (`TPS_Sent`, `TPS_Recv`) are left out.
-/

namespace NetworkLibrary.ChatDummyClient

open Foundations ChatServer Packet

/-- `SessionState`. -/
inductive SessionState
  | kIdle | kConnecting | kConnected | kLoginSent | kActive | kDisconnected
  deriving DecidableEq

/-- The counters of `WorkerContext`. -/
structure Counters where
  connected : ℤ
  active : ℤ
  failed : ℤ
  disconnected : ℤ
  totalSent : ℤ
  totalRecv : ℤ
  deriving DecidableEq

/-- `ClientSession`. -/
structure ClientSession where
  /-- Whether `sock` is a socket. -/
  sock : Bool
  state : SessionState
  accountNo : BitVec 64
  sectorX : BitVec 16
  sectorY : BitVec 16
  /-- The first `sendBytes` bytes of the array. -/
  sendBuf : List UInt8
  recvBuf : List UInt8
  lastHeartbeat : UInt32
  lastMessage : UInt32
  disconnectAt : UInt32
  reconnectAt : UInt32
  messagesSent : ℤ
  messagesRecv : ℤ
  /-- What the session has added to the counters. -/
  added : Counters

/-- `WorkerContext`, as far as the sessions read it. -/
structure WorkerContext where
  messageInterval : UInt32
  /-- 0 for no random disconnect. -/
  minLifetimeMs : UInt32
  maxLifetimeMs : UInt32
  encoder : XorPacketEncoder
  /-- `main` ends with an error otherwise. -/
  lifetime : minLifetimeMs ≠ 0 → minLifetimeMs < maxLifetimeMs

/-- What `GetTickCount`, `rand` and the random byte of `Encode` return, and what the memory of a new
packet holds. -/
structure Chance where
  tick : UInt32
  /-- The next call of `GetTickCount`, where there are two. -/
  nextTick : UInt32
  delay : ℕ
  sectorX : ℕ
  sectorY : ℕ
  rKey : UInt8
  memory : ℤ → UInt8

/-- `sizeof(sendBuf)` and `sizeof(recvBuf)`. -/
def sizeofBuf : ℕ := 8192

def computeDisconnectAt (ctx : WorkerContext) (chance : Chance) : UInt32 :=
  if ctx.minLifetimeMs = 0 then 0
  else chance.tick + ctx.minLifetimeMs +
    UInt32.ofNat chance.delay % (ctx.maxLifetimeMs - ctx.minLifetimeMs)

def computeReconnectAt (chance : Chance) : UInt32 :=
  chance.tick + 500 + UInt32.ofNat chance.delay % 1500

/-! ## Texts -/

/-- A wide string. -/
def wide (text : List Char) : List UInt16 := text.map fun c => UInt16.ofNat c.toNat

/-- `%lld`. -/
def decimal (value : BitVec 64) : List Char :=
  (if value.toInt < 0 then ['-'] else []) ++ Nat.toDigits 10 value.toInt.natAbs

/-- An array of 20 `WCHAR`s that are 0, with the text `DC%lld` in it. -/
def nameArray (accountNo : BitVec 64) : List UInt16 :=
  let text := wide (['D', 'C'] ++ decimal accountNo)
  text ++ List.replicate (20 - text.length) 0

def messageText (accountNo : BitVec 64) : List UInt16 :=
  wide ("Test from DC".toList ++ decimal accountNo)

/-! ## Connecting -/

namespace ClientSession

variable (s : ClientSession) (ctx : WorkerContext)

/-- `ResetSessionForReconnect`. -/
def reset : ClientSession :=
  { s with sendBuf := [], recvBuf := [], lastHeartbeat := 0, lastMessage := 0, disconnectAt := 0 }

/-- The connection is there. -/
def connected (chance : Chance) : ClientSession :=
  { s.reset with
    state := .kConnected
    lastHeartbeat := chance.tick
    lastMessage := chance.nextTick
    added := { s.added with connected := s.added.connected + 1 } }

/-- The connection has failed. -/
def connectFailed (chance : Chance) : ClientSession :=
  { s with sock := false, state := .kDisconnected, reconnectAt := computeReconnectAt chance }

/-- What `socket` and `connect` return. -/
inductive ConnectResult
  | noSocket | done | wouldBlock | error
  deriving DecidableEq

def initiateConnect (chance : Chance) : ConnectResult → ClientSession
  | .noSocket => s.connectFailed chance
  | .done => { s with sock := true }.connected chance
  | .wouldBlock => { s with sock := true, state := .kConnecting }
  | .error => s.connectFailed chance

/-- `HandleConnectComplete`; `sockErr` is what `getsockopt` finds. -/
def handleConnectComplete (writable error sockErr : Bool) (chance : Chance) : ClientSession :=
  if error then s.connectFailed chance
  else if writable then if sockErr then s.connectFailed chance else s.connected chance
  else s

def markDisconnected : ClientSession :=
  { s with
    state := .kDisconnected
    added := if s.state = .kActive then { s.added with active := s.added.active - 1 } else s.added }

/-! ## Sending -/

/-- `Packet packet; packet.Clear()`. -/
def newPacket (chance : Chance) : Packet := (Packet.new kBufferDefault chance.memory).clear

/-- The packet is encoded and copied behind what `sendBuf` holds, if there is room. -/
def queue (chance : Chance) (packet : Packet) : Option ClientSession :=
  let packet := ctx.encoder.encode chance.rKey packet
  if s.sendBuf.length + packet.getDataSize > sizeofBuf then none
  else some { s with sendBuf := s.sendBuf ++ packet.data }

def sendLoginPacket (globalIdx : ℕ) (chance : Chance) : ClientSession :=
  let accountNo := BitVec.ofNat 64 (globalIdx + 1)
  let packet := (newPacket chance).insert .unsignedShort PacketType.csChatReqLogin.toWord
  let packet := packet.insert .int64 accountNo
  let packet := (packet.putDataW (nameArray accountNo)).2
  let packet := (packet.putDataW (nameArray accountNo)).2
  let packet := (packet.putData (List.replicate 64 0)).2
  match s.queue ctx chance packet with
  | none => s
  | some s => { s with accountNo := accountNo, state := .kLoginSent }

def sendSectorMovePacket (chance : Chance) : ClientSession :=
  let sectorX := BitVec.ofNat 16 (chance.sectorX % 50)
  let sectorY := BitVec.ofNat 16 (chance.sectorY % 50)
  let packet := (newPacket chance).insert .unsignedShort PacketType.csChatReqSectorMove.toWord
  let packet := packet.insert .int64 s.accountNo
  let packet := (packet.insert .unsignedShort sectorX).insert .unsignedShort sectorY
  match s.queue ctx chance packet with
  | none => s
  | some s => { s with sectorX := sectorX, sectorY := sectorY }

def sendChatPacket (chance : Chance) : ClientSession :=
  let message := messageText s.accountNo
  let messageLen := BitVec.ofNat 16 (2 * message.length)
  let packet := (newPacket chance).insert .unsignedShort PacketType.csChatReqMessage.toWord
  let packet := (packet.insert .int64 s.accountNo).insert .unsignedShort messageLen
  let packet := (packet.putDataW message).2
  match s.queue ctx chance packet with
  | none => s
  | some s => { s with messagesSent := s.messagesSent + 1 }

def sendHeartbeatPacket (chance : Chance) : ClientSession :=
  let packet := (newPacket chance).insert .unsignedShort PacketType.csChatReqHeartbeat.toWord
  (s.queue ctx chance packet).getD s

/-- `HandleSend`; `none` where `send` fails for another reason than `WSAEWOULDBLOCK`, which is to
send nothing. -/
def handleSend : Option ℕ → ClientSession
  | none => if s.sendBuf = [] then s else s.markDisconnected
  | some n =>
    { s with
      sendBuf := s.sendBuf.drop n
      added := { s.added with totalSent := s.added.totalSent + n } }

/-! ## Receiving -/

/-- The `switch` over the packet types. -/
def handlePacket (type : BitVec 16) (packet : Packet) (chance : Chance) : ClientSession :=
  if type = PacketType.csChatResLogin.toWord then
    let status := (packet.extract .unsignedChar).1
    if status = 1 then
      let s : ClientSession := { s with
        state := .kActive
        disconnectAt := computeDisconnectAt ctx chance
        added := { s.added with active := s.added.active + 1 } }
      s.sendSectorMovePacket ctx chance
    else
      let s := s.markDisconnected
      { s with
        reconnectAt := computeReconnectAt chance
        added := { s.added with failed := s.added.failed + 1 } }
  else if type = PacketType.csChatResMessage.toWord then
    { s with
      messagesRecv := s.messagesRecv + 1
      added := { s.added with totalRecv := s.added.totalRecv + 1 } }
  else s

/-- `ProcessRecvBuffer`, where `rest` is what has not been processed; each turn takes a header at
least, so that there are no more turns than bytes. `none` where `memcpy` writes behind the buffer of
`tmpPacket`: the size is not checked, and what the heap is then is not known. -/
def processLoop :
    ℕ → ClientSession → List UInt8 → (ℕ → Chance) → Option (ClientSession × List UInt8)
  | 0, s, rest, _ => some (s, rest)
  | turns + 1, s, rest, chances =>
    if rest.length < XorPacketEncoder.headerSize then some (s, rest)
    else
      let hdr := store (fun _ => 0) 0 rest
      if !ctx.encoder.verifyHeaderMagic hdr 0 then some (s.markDisconnected, rest)
      else
        match ctx.encoder.peekPayloadLength hdr 0 with
        | none => some (s.markDisconnected, rest)
        | some payloadLen =>
          if payloadLen > sizeofBuf - XorPacketEncoder.headerSize then
            some (s.markDisconnected, rest)
          else
            let packetSize := XorPacketEncoder.headerSize + payloadLen
            if rest.length < packetSize then some (s, rest)
            else
              let tmpPacket := Packet.new kBufferDefault (chances 0).memory
              if tmpPacket.getWriteBufferPtr + packetSize > tmpPacket.bufferSize then none
              else
                let tmpPacket := tmpPacket.fill (rest.take packetSize) tmpPacket.getWriteBufferPtr
                let tmpPacket := (tmpPacket.moveWritePos packetSize).2
                match ctx.encoder.decode tmpPacket with
                | (false, _) => some (s.markDisconnected, rest)
                | (true, tmpPacket) =>
                  let (type, tmpPacket) := extractWord tmpPacket
                  processLoop turns (s.handlePacket ctx type tmpPacket (chances 0))
                    (rest.drop packetSize) fun n => chances (n + 1)

/-- What `recv` returns. -/
inductive RecvResult
  | bytes (received : List UInt8)
  | wouldBlock
  /-- Nothing is left to come, or an error. -/
  | closed

/-- `HandleRecv`; `none` where `ProcessRecvBuffer` writes behind a buffer. -/
def handleRecv (chances : ℕ → Chance) : RecvResult → Option ClientSession
  | .wouldBlock => some (if sizeofBuf ≤ s.recvBuf.length then s.markDisconnected else s)
  | .closed => some s.markDisconnected
  | .bytes received =>
    if sizeofBuf ≤ s.recvBuf.length then some s.markDisconnected
    else
      let rest := s.recvBuf ++ received
      (processLoop ctx rest.length s rest chances).map fun processed =>
        { processed.1 with recvBuf := processed.2 }

/-! ## The loop of the worker -/

/-- The blocking connect at the start. -/
def initialConnect (chance : Chance) (done : Bool) : ClientSession :=
  if done then
    { s with
      sock := true
      state := .kConnected
      lastHeartbeat := chance.tick
      lastMessage := chance.nextTick
      added := { s.added with connected := s.added.connected + 1 } }
  else
    let s := s.connectFailed chance
    { s with added := { s.added with failed := s.added.failed + 1 } }

/-- What the worker does with a session each time after `select`; `result` is for a session that is
to be connected again. -/
def periodic (globalIdx : ℕ) (now : UInt32) (chances : ℕ → Chance) (result : ConnectResult) :
    ClientSession :=
  match s.state with
  | .kConnected => s.sendLoginPacket ctx globalIdx (chances 0)
  | .kActive =>
    if s.disconnectAt ≠ 0 ∧ now ≥ s.disconnectAt then s.markDisconnected
    else
      let s := if now - s.lastMessage ≥ ctx.messageInterval then
          { s.sendChatPacket ctx (chances 0) with lastMessage := now }
        else s
      if now - s.lastHeartbeat ≥ 30000 then
        { s.sendHeartbeatPacket ctx (chances 1) with lastHeartbeat := now }
      else s
  | .kDisconnected =>
    if s.sock then
      { s with
        sock := false
        added := { s.added with disconnected := s.added.disconnected + 1 }
        reconnectAt := computeReconnectAt (chances 0) }
    else if now ≥ s.reconnectAt then s.initiateConnect (chances 0) result
    else s
  | _ => s

end ClientSession

end NetworkLibrary.ChatDummyClient
