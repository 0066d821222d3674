import NetworkLibrary.Packet.Operators
import NetworkLibrary.Receive.Handler
import Mathlib.Data.List.AList

/-!
# The jobs of `ChatServer`

One thread takes the jobs from the queue and handles them one after the other. A `Character*` is a
number; `CharacterPool` hands out any character that is not in use, with what its fields held
before. A `SectorList` outside the array has an index as well. What the server does to the network
is a list of events, in which the sizes that `GetData` copies are noted; `Crash` ends the process,
so that nothing is done after it. Log entries are left out.
-/

namespace NetworkLibrary.ChatServer

open Foundations

def kSectorXMax : ℤ := 50

def kSectorYMax : ℤ := 50

def kMessageBufsize : ℕ := 1000

/-- `PacketType`. -/
inductive PacketType
  | csChatServer | csChatReqLogin | csChatResLogin | csChatReqSectorMove | csChatResSectorMove
  | csChatReqMessage | csChatResMessage | csChatReqHeartbeat
  deriving DecidableEq

def PacketType.toWord : PacketType → BitVec 16
  | .csChatServer => 0
  | .csChatReqLogin => 1
  | .csChatResLogin => 2
  | .csChatReqSectorMove => 3
  | .csChatResSectorMove => 4
  | .csChatReqMessage => 5
  | .csChatResMessage => 6
  | .csChatReqHeartbeat => 7

/-- `ChatServer::Character`. -/
structure Character where
  sessionID : UInt64
  accountNo : BitVec 64
  sectorX : BitVec 16
  sectorY : BitVec 16
  lastRecvTime : UInt32
  /-- The memory of the array of 20 `WCHAR`s. -/
  id : ℤ → UInt8
  nickname : ℤ → UInt8

/-- `ChatServer`, as far as the jobs go. -/
structure Server where
  /-- The characters that `CharacterPool` has handed out. -/
  inUse : ℕ → Bool
  characters : ℕ → Character
  characterMap : AList fun _ : UInt64 => ℕ
  /-- `SectorList[y][x]`. -/
  sectorList : ℤ × ℤ → List ℕ
  /-- The memory of `MessageBuf`. -/
  messageBuf : ℤ → UInt8

/-- What the jobs do outside. -/
inductive Event
  /-- `SendPacket`, with the data of the packet. -/
  | sendPacket (sessionID : UInt64) (data : List UInt8)
  | killSession (sessionID : UInt64)
  | freePacket
  /-- `GetData` copies so many bytes. -/
  | getData (size : ℤ)
  | crash
  deriving DecidableEq

/-- A packet as `OnRecv` gets it: from the pool, with a payload that fits. -/
structure Delivered where
  pooled : Receive.PooledPacket
  payload : List UInt8
  fits : payload.length ≤ 1004

/-- The packet that `GetPacketMessage` fills. -/
def Delivered.packet (m : Delivered) : Packet :=
  let packet := Receive.allocPacket m.pooled
  ((packet.fill m.payload packet.getWriteBufferPtr).moveWritePos m.payload.length).2

/-- The jobs. `character` is what `CharacterPool` hands out, and `time` is what `timeGetTime`
returns. -/
inductive Job
  | join (sessionID : UInt64) (character : ℕ) (time : UInt32)
  | message (sessionID : UInt64) (packet : Delivered) (time : UInt32)
  | leave (sessionID : UInt64)
  | heartbeat (time : UInt32)

/-- `>>` on a `WORD`. -/
def extractWord (packet : Packet) : BitVec 16 × Packet := packet.extract .unsignedShort

/-- `>>` on an `INT64`. -/
def extractInt64 (packet : Packet) : BitVec 64 × Packet := packet.extract .int64

namespace Server

variable (s : Server)

/-- Write access to a character. -/
def set (c : ℕ) (character : Character) : Server :=
  { s with characters := Function.update s.characters c character }

/-- `SectorList[sectorY][sectorX].erase` of the first entry that is the character. -/
def erase (sectorY sectorX : ℤ) (c : ℕ) : Server :=
  { s with sectorList := Function.update s.sectorList (sectorY, sectorX)
             ((s.sectorList (sectorY, sectorX)).erase c) }

/-- `SectorList[sectorY][sectorX].push_back`. -/
def pushBack (sectorY sectorX : ℤ) (c : ℕ) : Server :=
  { s with sectorList := Function.update s.sectorList (sectorY, sectorX)
             (s.sectorList (sectorY, sectorX) ++ [c]) }

/-- `FindCharacter`. -/
def findCharacter (sessionID : UInt64) : Option ℕ := s.characterMap.lookup sessionID

/-- `CreateCharacter`. -/
def createCharacter (sessionID : UInt64) (c : ℕ) (time : UInt32) : Option Server :=
  if sessionID ∈ s.characterMap then some s
  else if s.inUse c then none
  else
    let s := { s with inUse := Function.update s.inUse c true }
    let s := s.set c { s.characters c with
      sessionID := sessionID, accountNo := 0, sectorX := -1, lastRecvTime := time }
    some { s with characterMap := s.characterMap.insert sessionID c }

/-- `LeaveCharacter`. -/
def leaveCharacter (sessionID : UInt64) : Server × List Event :=
  match s.findCharacter sessionID with
  | none => (s, [.crash])
  | some c =>
    let s : Server := { s with characterMap := s.characterMap.erase sessionID }
    let character := s.characters c
    let s := if 0 ≤ character.sectorX.toInt ∧ 0 ≤ character.sectorY.toInt then
        s.erase character.sectorY.toInt character.sectorX.toInt c
      else s
    ({ s with inUse := Function.update s.inUse c false }, [])

/-- `CheckHeartBeat`, over the map in the order of its keys. -/
def checkHeartBeat (time : UInt32) : List Event :=
  let characters := s.characterMap.entries.mergeSort fun x y => x.1 ≤ y.1
  characters.filterMap fun x =>
    let character := s.characters x.2
    if time - character.lastRecvTime > 40000 then some (.killSession character.sessionID) else none

/-- `SendPacketAround`. -/
def sendPacketAround (sectorX sectorY : ℤ) (packet : Packet) : List Event :=
  let sectorX := sectorX - 1
  let sectorY := sectorY - 1
  (List.range 3).flatMap fun cntY : ℕ =>
    if sectorY + cntY < 0 ∨ sectorY + cntY ≥ kSectorYMax then []
    else
      (List.range 3).flatMap fun cntX : ℕ =>
        if sectorX + cntX < 0 ∨ sectorX + cntX ≥ kSectorXMax then []
        else
          (s.sectorList (sectorY + cntY, sectorX + cntX)).map fun c =>
            .sendPacket (s.characters c).sessionID packet.data

/-! ## Messages -/

/-- `kCsChatReqLogin`. -/
def login (sessionID : UInt64) (c : ℕ) (packet : Packet) : Server × List Event :=
  let character := s.characters c
  if character.sectorX.toInt ≠ -1 then (s, [.crash])
  else
    let (accountNo, packet) := extractInt64 packet
    let (idSize, id, packet) := packet.getDataW 20
    let (nicknameSize, nickname, packet) := packet.getDataW 20
    let s := s.set c { character with
      accountNo := accountNo
      id := store character.id 0 id
      nickname := store character.nickname 0 nickname }
    let packet := packet.clear.insert .unsignedShort PacketType.csChatResLogin.toWord
    let packet := (packet.insert .unsignedChar 1).insert .int64 accountNo
    (s, [.getData idSize, .getData nicknameSize, .sendPacket sessionID packet.data])

/-- The character goes to a sector. -/
def enter (c : ℕ) (sectorX sectorY : BitVec 16) : Server :=
  let character := s.characters c
  let s := if character.sectorX.toInt ≠ -1 then
      s.erase character.sectorY.toInt character.sectorX.toInt c
    else s
  let s := s.set c { character with sectorX := sectorX, sectorY := sectorY }
  s.pushBack sectorY.toNat sectorX.toNat c

/-- `kCsChatReqSectorMove`. The cast of the words to `short`s changes nothing of their bits. -/
def sectorMove (sessionID : UInt64) (c : ℕ) (packet : Packet) : Server × List Event :=
  let accountNo := (extractInt64 packet).1
  let packet := (extractInt64 packet).2
  let sectorX := (extractWord packet).1
  let packet := (extractWord packet).2
  let sectorY := (extractWord packet).1
  let packet := (extractWord packet).2
  if (s.characters c).accountNo ≠ accountNo then (s, [.killSession (s.characters c).sessionID])
  else
    let s := if (0 ≤ (sectorX.toNat : ℤ) ∧ (sectorX.toNat : ℤ) < kSectorXMax) ∧
        0 ≤ (sectorY.toNat : ℤ) ∧ (sectorY.toNat : ℤ) < kSectorYMax then s.enter c sectorX sectorY
      else s
    let character := s.characters c
    let packet := packet.clear.insert .unsignedShort PacketType.csChatResSectorMove.toWord
    let packet := packet.insert .int64 character.accountNo
    let packet := (packet.insert .short character.sectorX).insert .short character.sectorY
    (s, [.sendPacket sessionID packet.data])

/-- `kCsChatReqMessage`. -/
def chatMessage (c : ℕ) (packet : Packet) : Server × List Event :=
  let character := s.characters c
  let accountNo := (extractInt64 packet).1
  let packet := (extractInt64 packet).2
  let messageLen := (extractWord packet).1
  let packet := (extractWord packet).2
  if character.accountNo ≠ accountNo then (s, [.killSession character.sessionID])
  else if messageLen.toNat ≥ kMessageBufsize then (s, [.crash])
  else
    let (size, message, packet) := packet.getData messageLen.toNat
    let messageBuf := store (store s.messageBuf 0 message) (2 * (messageLen.toNat / 2)) [0, 0]
    let packet := packet.clear.insert .unsignedShort PacketType.csChatResMessage.toWord
    let packet := packet.insert .int64 character.accountNo
    -- 20 `WCHAR`s
    let packet := (packet.putData (load character.id 0 40)).2
    let packet := (packet.putData (load character.nickname 0 40)).2
    let packet := packet.insert .unsignedShort messageLen
    let packet := (packet.putData (load messageBuf 0 messageLen.toNat)).2
    ({ s with messageBuf := messageBuf },
      .getData size :: s.sendPacketAround character.sectorX.toInt character.sectorY.toInt packet)

/-- The `switch` of `MessageControl`. -/
def dispatch (sessionID : UInt64) (c : ℕ) (messageType : BitVec 16) (packet : Packet) :
    Server × List Event :=
  if messageType = PacketType.csChatServer.toWord then (s, [])
  else if messageType = PacketType.csChatReqLogin.toWord then s.login sessionID c packet
  else if messageType = PacketType.csChatReqSectorMove.toWord then s.sectorMove sessionID c packet
  else if messageType = PacketType.csChatReqMessage.toWord then s.chatMessage c packet
  else if messageType = PacketType.csChatReqHeartbeat.toWord then (s, [])
  else (s, [.killSession sessionID])

/-- `LastRecvTime` is set. -/
def touch (c : ℕ) (time : UInt32) : Server :=
  s.set c { s.characters c with lastRecvTime := time }

/-- `MessageControl`. -/
def messageControl (sessionID : UInt64) (packet : Packet) (time : UInt32) : Server × List Event :=
  match s.findCharacter sessionID with
  | none => (s, [.crash])
  | some c =>
    let s := s.touch c time
    let messageType := (extractWord packet).1
    let packet := (extractWord packet).2
    let handled := s.dispatch sessionID c messageType packet
    (handled.1, if .crash ∈ handled.2 then handled.2 else handled.2 ++ [.freePacket])

/-- The `switch` of `UpdateThreadFunc`; `none` where the pool cannot hand the character out. -/
def update (job : Job) : Option (Server × List Event) :=
  match job with
  | .message sessionID packet time => some (s.messageControl sessionID packet.packet time)
  | .join sessionID c time => (s.createCharacter sessionID c time).map fun s => (s, [])
  | .leave sessionID => some (s.leaveCharacter sessionID)
  | .heartbeat time => some (s, s.checkHeartBeat time)

end Server

/-! ## The fields of a message

They are read in this order, whether or not the payload is that long. -/

def messageType (packet : Packet) : BitVec 16 := (extractWord packet).1

def accountNo (packet : Packet) : BitVec 64 := (extractInt64 (extractWord packet).2).1

def messageLen (packet : Packet) : BitVec 16 :=
  (extractWord (extractInt64 (extractWord packet).2).2).1

/-- A chat message of its character's account that is not too long. -/
structure Accepted (character : Character) (packet : Packet) : Prop where
  type : messageType packet = PacketType.csChatReqMessage.toWord
  account : accountNo packet = character.accountNo
  short : (messageLen packet).toNat < kMessageBufsize

section Events

variable {s : Server} {sessionID : UInt64} {c : ℕ} {packet : Packet} {time : UInt32}

/-- Where an `INT64` and a `WORD` have been read from the packet. -/
def afterWord (packet : Packet) : Packet := (extractWord (extractInt64 packet).2).2

theorem characters_touch : (s.touch c time).characters c =
    { s.characters c with lastRecvTime := time } :=
  Function.update_self ..

theorem messageControl_events (hc : s.findCharacter sessionID = some c) :
    (s.messageControl sessionID packet time).2 =
      let events := ((s.touch c time).dispatch sessionID c (messageType packet)
        (extractWord packet).2).2
      if .crash ∈ events then events else events ++ [.freePacket] := by
  simp only [Server.messageControl, hc]
  rfl

theorem dispatch_login : s.dispatch sessionID c PacketType.csChatReqLogin.toWord packet =
    s.login sessionID c packet := by
  rw [Server.dispatch, if_neg (by decide), if_pos rfl]

theorem dispatch_message : s.dispatch sessionID c PacketType.csChatReqMessage.toWord packet =
    s.chatMessage c packet := by
  rw [Server.dispatch, if_neg (by decide), if_neg (by decide), if_neg (by decide), if_pos rfl]

theorem login_of_entered (h : (s.characters c).sectorX.toInt ≠ -1) :
    (s.login sessionID c packet).2 = [.crash] := by
  unfold Server.login
  dsimp only
  rw [if_pos h]

theorem login_of_not_entered (sessionID : UInt64) (packet : Packet)
    (h : (s.characters c).sectorX.toInt = -1) :
    ∃ data, (s.login sessionID c packet).2 =
      [.getData ((extractInt64 packet).2.getDataW 20).1,
        .getData (((extractInt64 packet).2.getDataW 20).2.2.getDataW 20).1,
        .sendPacket sessionID data] := by
  unfold Server.login
  dsimp only
  rw [if_neg (not_not.2 h)]
  exact ⟨_, rfl⟩

theorem chatMessage_of_account_ne (h : (s.characters c).accountNo ≠ (extractInt64 packet).1) :
    (s.chatMessage c packet).2 = [.killSession (s.characters c).sessionID] := by
  unfold Server.chatMessage
  dsimp only
  rw [if_pos h]

theorem chatMessage_of_long (h : (s.characters c).accountNo = (extractInt64 packet).1)
    (hlen : kMessageBufsize ≤ (extractWord (extractInt64 packet).2).1.toNat) :
    (s.chatMessage c packet).2 = [.crash] := by
  unfold Server.chatMessage
  dsimp only
  rw [if_neg (not_not.2 h), if_pos hlen]

theorem chatMessage_of_short (h : (s.characters c).accountNo = (extractInt64 packet).1)
    (hlen : (extractWord (extractInt64 packet).2).1.toNat < kMessageBufsize) :
    ∃ packet', (s.chatMessage c packet).2 =
      .getData ((afterWord packet).getData (extractWord (extractInt64 packet).2).1.toNat).1 ::
        s.sendPacketAround (s.characters c).sectorX.toInt (s.characters c).sectorY.toInt
          packet' := by
  unfold Server.chatMessage
  dsimp only
  rw [if_neg (not_not.2 h), if_neg (not_le.2 hlen)]
  exact ⟨_, rfl⟩

end Events

/-! ## Runs -/

/-- What has come of a session. -/
inductive Phase
  | unknown | joined | left
  deriving DecidableEq

/-- The server, with what has come of the sessions and all that has been done. -/
structure State where
  server : Server
  phase : UInt64 → Phase
  events : List Event

/-- The jobs of a session come in order: the first one is `Join`, and the last one is `Leave`. -/
def Job.inOrder (phase : UInt64 → Phase) : Job → Bool
  | .join sessionID .. => phase sessionID = .unknown
  | .message sessionID .. | .leave sessionID => phase sessionID = .joined
  | .heartbeat _ => true

/-- What has come of the sessions after the job. -/
def Job.advance (phase : UInt64 → Phase) : Job → UInt64 → Phase
  | .join sessionID .. => Function.update phase sessionID .joined
  | .leave sessionID => Function.update phase sessionID .left
  | .message .. | .heartbeat _ => phase

/-- The job loop. -/
def jobs : Lts State Job where
  init s := s.server.characterMap = ∅ ∧ (∀ p, s.server.sectorList p = []) ∧
    (∀ c, s.server.inUse c = false) ∧ (∀ sessionID, s.phase sessionID = .unknown) ∧ s.events = []
  step s job :=
    if .crash ∈ s.events then none
    else if job.inOrder s.phase then
      (s.server.update job).map fun (server, events) =>
        ⟨server, job.advance s.phase, s.events ++ events⟩
    else none

/-- A server without sessions. -/
def State.empty : State where
  server :=
    { inUse := fun _ => false
      characters := fun _ => ⟨0, 0, 0, 0, 0, fun _ => 0, fun _ => 0⟩
      characterMap := ∅
      sectorList := fun _ => []
      messageBuf := fun _ => 0 }
  phase := fun _ => .unknown
  events := []

theorem init_empty : jobs.init .empty := ⟨rfl, fun _ => rfl, fun _ => rfl, fun _ => rfl, rfl⟩

/-- A payload in a packet whose memory was zero. -/
def Delivered.ofList (payload : List UInt8) (fits : payload.length ≤ 1004) : Delivered :=
  ⟨⟨.new 1024 fun _ => 0, rfl⟩, payload, fits⟩

theorem step_eq_some {s t : State} {job : Job} : jobs.step s job = some t ↔
    .crash ∉ s.events ∧ job.inOrder s.phase = true ∧ ∃ server events,
      s.server.update job = some (server, events) ∧
        t = ⟨server, job.advance s.phase, s.events ++ events⟩ := by
  simp only [jobs, Option.ite_none_left_eq_some, Option.ite_none_right_eq_some,
    Option.map_eq_some_iff, Prod.exists, eq_comm (b := t)]

end NetworkLibrary.ChatServer
