import NetworkLibrary.ChatServer.Payloads
import NetworkLibrary.Packet.Fields
import NetworkLibrary.Receive.Messages

/-!
# The packets of the chat protocol

`ChatProtocol.h` gives the layout of every packet. `MessageControl` reads the requests that are laid
out so field by field, and its answers are laid out so as well: what follows says for each request
what is sent to whom, and what the server knows afterwards.
-/

namespace NetworkLibrary.ChatServer

open Foundations Packet

/-- An array of 20 `WCHAR`s. -/
structure Name where
  bytes : List UInt8
  length_eq : bytes.length = 40
  deriving DecidableEq

/-- The packets, without their types. -/
inductive Message
  | reqLogin (accountNo : BitVec 64) (id nickname : Name) (sessionKey : List UInt8)
  | resLogin (status : BitVec 8) (accountNo : BitVec 64)
  | reqSectorMove (accountNo : BitVec 64) (sectorX sectorY : BitVec 16)
  | resSectorMove (accountNo : BitVec 64) (sectorX sectorY : BitVec 16)
  | reqMessage (accountNo : BitVec 64) (message : List UInt16)
  | resMessage (accountNo : BitVec 64) (id nickname : Name) (message : List UInt16)
  | reqHeartbeat
  deriving DecidableEq

/-- The type of a packet on the wire. -/
def PacketType.bytes (type : PacketType) : List UInt8 := toBytes 2 type.toWord

/-- `MessageLen` and the text behind it. -/
def textBytes (message : List UInt16) : List UInt8 :=
  toBytes 2 (BitVec.ofNat 16 (2 * message.length)) ++ wideBytes message

/-- The layout of a packet. -/
def Message.encoded : Message → List UInt8
  | .reqLogin accountNo id nickname sessionKey =>
    PacketType.csChatReqLogin.bytes ++ toBytes 8 accountNo ++ id.bytes ++ nickname.bytes ++
      sessionKey
  | .resLogin status accountNo =>
    PacketType.csChatResLogin.bytes ++ toBytes 1 status ++ toBytes 8 accountNo
  | .reqSectorMove accountNo sectorX sectorY =>
    PacketType.csChatReqSectorMove.bytes ++ toBytes 8 accountNo ++ toBytes 2 sectorX ++
      toBytes 2 sectorY
  | .resSectorMove accountNo sectorX sectorY =>
    PacketType.csChatResSectorMove.bytes ++ toBytes 8 accountNo ++ toBytes 2 sectorX ++
      toBytes 2 sectorY
  | .reqMessage accountNo message =>
    PacketType.csChatReqMessage.bytes ++ toBytes 8 accountNo ++ textBytes message
  | .resMessage accountNo id nickname message =>
    PacketType.csChatResMessage.bytes ++ toBytes 8 accountNo ++ id.bytes ++ nickname.bytes ++
      textBytes message
  | .reqHeartbeat => PacketType.csChatReqHeartbeat.bytes

/-- The server knows the account, the ID and the nickname of a character. -/
structure Character.Knows (character : Character) (accountNo : BitVec 64) (id nickname : Name) :
    Prop where
  accountNo : character.accountNo = accountNo
  id : load character.id 0 40 = id.bytes
  nickname : load character.nickname 0 40 = nickname.bytes

variable {s : Server} {sessionID : UInt64} {c : ℕ} {m : Delivered} {time : UInt32}
  {accountNo : BitVec 64} {id nickname : Name} {message : List UInt16} {p : Packet}
  {tail : List UInt8}

/-! ## Reading a request -/

theorem holds_packet (m : Delivered) : m.packet.Holds m.payload where
  inBounds := by
    have hsize : m.packet.bufferSize = 1024 := m.pooled.size
    have hfront := front_packet m
    have hrear := rear_packet m
    have hfits := m.fits
    exact ⟨by omega, by omega, by omega⟩
  data := Receive.data_allocPacket m.pooled m.payload m.fits

theorem extractWord_of_holds {word : BitVec 16} (h : p.Holds (toBytes 2 word ++ tail)) :
    (extractWord p).1 = word ∧ (extractWord p).2.Holds tail :=
  Holds.extract (t := .unsignedShort) h

theorem extractInt64_of_holds {value : BitVec 64} (h : p.Holds (toBytes 8 value ++ tail)) :
    (extractInt64 p).1 = value ∧ (extractInt64 p).2.Holds tail :=
  Holds.extract (t := .int64) h

theorem getDataW_of_holds {name : Name} (h : p.Holds (name.bytes ++ tail)) :
    (p.getDataW 20).1 = 40 ∧ (p.getDataW 20).2.1 = name.bytes ∧ (p.getDataW 20).2.2.Holds tail := by
  have hlen : (20 * 2 : ℤ) = (name.bytes.length : ℤ) := by
    rw [name.length_eq]
    rfl
  rw [getDataW, hlen]
  obtain ⟨h₁, h₂, h₃⟩ := h.getData
  exact ⟨h₁.trans hlen.symm, h₂, h₃⟩

theorem Name.load_store (name : Name) (memory : ℤ → UInt8) :
    load (store memory 0 name.bytes) 0 40 = name.bytes := by
  have h := load_store_self memory 0 name.bytes
  rwa [name.length_eq] at h

/-- `MessageControl` on a packet of a known type. -/
theorem messageControl_of_type (time : UInt32) {type : PacketType}
    (hc : s.findCharacter sessionID = some c)
    (hm : m.payload = type.bytes ++ tail) : ∃ p, p.Holds tail ∧ p.bufferSize = 1024 ∧
      s.messageControl sessionID m.packet time =
        let handled := (s.touch c time).dispatch sessionID c type.toWord p
        (handled.1, if .crash ∈ handled.2 then handled.2 else handled.2 ++ [.freePacket]) := by
  have hholds := holds_packet m
  rw [hm] at hholds
  obtain ⟨htype, htail⟩ := extractWord_of_holds hholds
  refine ⟨_, htail, m.pooled.size, ?_⟩
  simp only [Server.messageControl, hc, htype]

/-! ## Login -/

theorem login_eq (sessionID : UInt64) (hx : (s.characters c).sectorX.toInt = -1)
    {sessionKey : List UInt8}
    (hp : p.Holds (toBytes 8 accountNo ++ id.bytes ++ nickname.bytes ++ sessionKey))
    (hsize : p.bufferSize = 1024) :
    s.login sessionID c p =
      (s.set c { s.characters c with
        accountNo := accountNo
        id := store (s.characters c).id 0 id.bytes
        nickname := store (s.characters c).nickname 0 nickname.bytes },
      [.getData 40, .getData 40,
        .sendPacket sessionID (Message.resLogin 1 accountNo).encoded]) := by
  rw [List.append_assoc, List.append_assoc] at hp
  obtain ⟨haccount, hp⟩ := extractInt64_of_holds hp
  obtain ⟨hid, hidBytes, hp⟩ := getDataW_of_holds hp
  obtain ⟨hnick, hnickBytes, -⟩ := getDataW_of_holds hp
  unfold Server.login
  dsimp only
  rw [if_neg (not_not.2 hx), haccount, hid, hidBytes, hnick, hnickBytes]
  have hclear := written_clear (p := (((extractInt64 p).2.getDataW 20).2.2.getDataW 20).2.2) hsize
  have h₁ := hclear.insert (t := .unsignedShort) PacketType.csChatResLogin.toWord (by decide)
  have h₂ := h₁.insert (t := .unsignedChar) 1 (by simp [length_toBytes, Scalar.sizeof])
  have h₃ := h₂.insert (t := .int64) accountNo (by simp [length_toBytes, Scalar.sizeof])
  rw [h₃.data]
  rfl

/-! ## Going to a sector -/

theorem sectorMove_eq (haccount : (s.characters c).accountNo = accountNo)
    {sectorX sectorY : BitVec 16} (hx : sectorX.toNat < 50) (hy : sectorY.toNat < 50)
    (hp : p.Holds (toBytes 8 accountNo ++ toBytes 2 sectorX ++ toBytes 2 sectorY))
    (hsize : p.bufferSize = 1024) :
    s.sectorMove sessionID c p =
      (s.enter c sectorX sectorY,
        [.sendPacket sessionID (Message.resSectorMove accountNo sectorX sectorY).encoded]) := by
  rw [List.append_assoc] at hp
  obtain ⟨hread, hp⟩ := extractInt64_of_holds hp
  obtain ⟨hreadX, hp⟩ := extractWord_of_holds hp
  rw [← List.append_nil (toBytes 2 sectorY)] at hp
  obtain ⟨hreadY, -⟩ := extractWord_of_holds hp
  have henter : (s.enter c sectorX sectorY).characters c =
      { s.characters c with sectorX := sectorX, sectorY := sectorY } := by
    rw [Server.enter_eq]
    exact Function.update_self ..
  unfold Server.sectorMove
  dsimp only
  rw [hread, hreadX, hreadY, if_neg (not_not.2 haccount),
    if_pos ⟨⟨Int.natCast_nonneg _, Int.ofNat_lt.2 hx⟩, Int.natCast_nonneg _, Int.ofNat_lt.2 hy⟩,
    henter, haccount]
  have hclear := written_clear
    (p := (extractWord (extractWord (extractInt64 p).2).2).2) hsize
  have h₁ := hclear.insert (t := .unsignedShort) PacketType.csChatResSectorMove.toWord (by decide)
  have h₂ := h₁.insert (t := .int64) accountNo (by simp [length_toBytes, Scalar.sizeof])
  have h₃ := h₂.insert (t := .short) sectorX (by simp [length_toBytes, Scalar.sizeof])
  have h₄ := h₃.insert (t := .short) sectorY (by simp [length_toBytes, Scalar.sizeof])
  rw [h₄.data]
  rfl

/-! ## Saying something -/

theorem length_textBytes (message : List UInt16) :
    (textBytes message).length = 2 + 2 * message.length := by
  rw [textBytes, List.length_append, length_toBytes, length_wideBytes]

/-- What `MessageBuf` holds of a message once its terminator is set. -/
theorem load_messageBuf (memory : ℤ → UInt8) (message : List UInt16) :
    load (store (store memory 0 (wideBytes message)) (2 * message.length : ℕ) [0, 0]) 0
      (2 * message.length) = wideBytes message := by
  have hstore := load_store_self memory 0 (wideBytes message)
  rw [length_wideBytes] at hstore
  rw [load_store_of_disjoint (.inr (by omega))]
  exact hstore

/-- **A message** is sent on as the text with its sender's account, ID and nickname in front, or as
much of it as fits into a packet. -/
theorem chatMessage_eq (hknows : (s.characters c).Knows accountNo id nickname)
    (hlen : 2 * message.length < 1000) (hp : p.Holds (toBytes 8 accountNo ++ textBytes message))
    (hsize : p.bufferSize = 1024) :
    ∃ messageBuf packet,
      packet.data = ((Message.resMessage accountNo id nickname message).encoded).take 1004 ∧
      s.chatMessage c p = ({ s with messageBuf := messageBuf },
        .getData (2 * message.length) ::
          s.sendPacketAround (s.characters c).sectorX.toInt (s.characters c).sectorY.toInt
            packet) := by
  obtain ⟨hread, hp⟩ := extractInt64_of_holds hp
  rw [textBytes] at hp
  obtain ⟨hreadLen, hp⟩ := extractWord_of_holds hp
  have htoNat : (BitVec.ofNat 16 (2 * message.length)).toNat = 2 * message.length := by
    rw [BitVec.toNat_ofNat, Nat.mod_eq_of_lt (by omega)]
  rw [← List.append_nil (wideBytes message)] at hp
  obtain ⟨hget, hbytes, -⟩ := hp.getData
  rw [length_wideBytes] at hget hbytes
  set q := (extractWord (extractInt64 p).2).2 with hq
  have hclear := written_clear (p := (q.getData ((2 * message.length : ℕ) : ℤ)).2.2) hsize
  have h₁ := hclear.insert (t := .unsignedShort) PacketType.csChatResMessage.toWord (by decide)
  have h₂ := h₁.insert (t := .int64) accountNo (by simp [length_toBytes, Scalar.sizeof])
  have h₃ := h₂.putData_of_le id.bytes
    (by simp [length_toBytes, Scalar.sizeof, id.length_eq])
  have h₄ := h₃.putData_of_le nickname.bytes
    (by simp [length_toBytes, Scalar.sizeof, id.length_eq, nickname.length_eq])
  have h₅ := h₄.insert (t := .unsignedShort) (BitVec.ofNat 16 (2 * message.length))
    (by simp [length_toBytes, Scalar.sizeof, id.length_eq, nickname.length_eq])
  have h₆ := h₅.putData (wideBytes message)
  have hhalf : 2 * (((2 * message.length : ℕ) : ℤ) / 2) = (2 * message.length : ℕ) := by omega
  refine ⟨store (store s.messageBuf 0 (wideBytes message)) (2 * message.length : ℕ) [0, 0], _,
    h₆.data.trans ?_, ?_⟩
  · rw [Message.encoded, textBytes, PacketType.bytes, ← List.append_assoc]
    rfl
  · unfold Server.chatMessage
    dsimp only
    rw [hread, hreadLen, if_neg (not_not.2 hknows.accountNo), htoNat,
      if_neg (show ¬2 * message.length ≥ kMessageBufsize by unfold kMessageBufsize; omega),
      hget, hbytes, hhalf, hknows.accountNo, hknows.id,
      hknows.nickname, load_messageBuf]
    rfl

end NetworkLibrary.ChatServer
