import NetworkLibrary.ChatDummyClient.Session

/-!
# What a session sends

Every packet that a session puts into `sendBuf` is a request laid out as `ChatProtocol.h` says, in a
frame of its encoder; where there is no room for it, nothing is put there.
-/

namespace NetworkLibrary.ChatDummyClient

open Foundations ChatServer Packet

/-! ## The requests -/

def accountNoOf (globalIdx : ℕ) : BitVec 64 := BitVec.ofNat 64 (globalIdx + 1)

theorem length_nameArray {globalIdx : ℕ} (h : globalIdx < 2 ^ 31) :
    (nameArray (accountNoOf globalIdx)).length = 20 := by
  have htoInt : (accountNoOf globalIdx).toInt = ((globalIdx + 1 : ℕ) : ℤ) := by
    rw [accountNoOf, BitVec.toInt_ofNat', Int.bmod_eq_of_le] <;> push_cast <;> omega
  have hdigits : (Nat.toDigits 10 (globalIdx + 1)).length ≤ 10 :=
    (Nat.length_toDigits_le_iff (by decide) (by decide)).2 (by omega)
  simp only [nameArray, wide, decimal, htoInt, Int.natAbs_natCast, List.length_append,
    List.length_map, List.length_replicate]
  rw [if_neg (by omega)]
  simp only [List.length_nil, List.length_cons]
  omega

theorem length_messageText (accountNo : BitVec 64) : (messageText accountNo).length ≤ 32 := by
  have hdigits : (Nat.toDigits 10 accountNo.toInt.natAbs).length ≤ 19 := by
    have hlt := BitVec.toInt_lt (x := accountNo)
    have hle := BitVec.le_toInt (x := accountNo)
    exact (Nat.length_toDigits_le_iff (by decide) (by decide)).2 (by omega)
  have htext : ("Test from DC".toList).length = 12 := by decide
  rw [messageText, wide, List.length_map, List.length_append, htext, decimal, List.length_append]
  split
  · rw [List.length_singleton]
    omega
  · rw [List.length_nil]
    omega

/-- The ID and the nickname of a session, whose `globalIdx` is an `int`. -/
def nameOf (globalIdx : Fin (2 ^ 31)) : Name where
  bytes := wideBytes (nameArray (accountNoOf globalIdx))
  length_eq := by rw [length_wideBytes, length_nameArray globalIdx.isLt]

def loginRequest (globalIdx : Fin (2 ^ 31)) : Message :=
  .reqLogin (accountNoOf globalIdx) (nameOf globalIdx) (nameOf globalIdx) (List.replicate 64 0)

def moveRequest (accountNo : BitVec 64) (chance : Chance) : Message :=
  .reqSectorMove accountNo (BitVec.ofNat 16 (chance.sectorX % 50))
    (BitVec.ofNat 16 (chance.sectorY % 50))

def chatRequest (accountNo : BitVec 64) : Message := .reqMessage accountNo (messageText accountNo)

/-- There is room for a request in `sendBuf`. -/
def ClientSession.HasRoom (s : ClientSession) (m : Message) : Prop :=
  s.sendBuf.length + (5 + m.encoded.length) ≤ sizeofBuf

instance (s : ClientSession) (m : Message) : Decidable (s.HasRoom m) :=
  inferInstanceAs (Decidable (_ ≤ _))

/-- A request is put into `sendBuf`. -/
def ClientSession.put (s : ClientSession) (ctx : WorkerContext) (rKey : UInt8) (m : Message) :
    ClientSession :=
  { s with sendBuf := s.sendBuf ++ ctx.encoder.frame rKey m.encoded }

namespace ClientSession

variable {s : ClientSession} {ctx : WorkerContext} {chance : Chance} {p : Packet}
  {accountNo : BitVec 64} {globalIdx : Fin (2 ^ 31)} {m : Message}

/-! ## The packets -/

theorem written_newPacket (chance : Chance) : (newPacket chance).Written [] := written_clear rfl

theorem queue_written (s : ClientSession) (ctx : WorkerContext) (chance : Chance)
    (hp : p.Written m.encoded) :
    s.queue ctx chance p = if s.HasRoom m then some (s.put ctx chance.rKey m) else none := by
  have hrear := hp.inBounds.rear
  have hdata : p.data.length < 2 ^ 16 := by
    rw [hp.data]
    exact hp.length.trans_lt (by decide)
  have hframe := ctx.encoder.data_encode chance.rKey hp.encodeFlag hrear hdata
  have hsize : (ctx.encoder.encode chance.rKey p).getDataSize = (5 + m.encoded.length : ℕ) := by
    have hlen := congrArg List.length hframe
    rw [Packet.data, length_load, XorPacketEncoder.length_frame, XorPacketEncoder.headerSize,
      hp.data] at hlen
    omega
  rw [queue, hsize, hframe, hp.data]
  by_cases hroom : s.HasRoom m
  · rw [if_pos hroom, if_neg]
    · rfl
    · rw [HasRoom] at hroom
      omega
  · rw [if_neg hroom, if_pos]
    rw [HasRoom] at hroom
    omega

/-- **Login.** -/
theorem sendLoginPacket_eq : s.sendLoginPacket ctx globalIdx chance =
    if s.HasRoom (loginRequest globalIdx) then
      { s.put ctx chance.rKey (loginRequest globalIdx) with
        accountNo := accountNoOf globalIdx
        state := .kLoginSent }
    else s := by
  have hname : (wideBytes (nameArray (accountNoOf globalIdx))).length = 40 :=
    (nameOf globalIdx).length_eq
  have h₁ := (written_newPacket chance).insert (t := .unsignedShort)
    PacketType.csChatReqLogin.toWord (by decide)
  have h₂ := h₁.insert (t := .int64) (accountNoOf globalIdx)
    (by simp [length_toBytes, Scalar.sizeof])
  have h₃ := h₂.putData_of_le (wideBytes (nameArray (accountNoOf globalIdx)))
    (by simp [length_toBytes, Scalar.sizeof, hname])
  have h₄ := h₃.putData_of_le (wideBytes (nameArray (accountNoOf globalIdx)))
    (by simp [length_toBytes, Scalar.sizeof, hname])
  have h₅ := h₄.putData_of_le (List.replicate 64 0)
    (by simp [length_toBytes, Scalar.sizeof, hname])
  have hqueue := queue_written s ctx chance (m := loginRequest globalIdx) h₅
  unfold sendLoginPacket
  dsimp only [putDataW]
  rw [show BitVec.ofNat 64 (globalIdx + 1) = accountNoOf globalIdx from rfl, hqueue]
  split_ifs <;> rfl

/-- **Going to a sector.** -/
theorem sendSectorMovePacket_eq : s.sendSectorMovePacket ctx chance =
    if s.HasRoom (moveRequest s.accountNo chance) then
      { s.put ctx chance.rKey (moveRequest s.accountNo chance) with
        sectorX := BitVec.ofNat 16 (chance.sectorX % 50)
        sectorY := BitVec.ofNat 16 (chance.sectorY % 50) }
    else s := by
  have h₁ := (written_newPacket chance).insert (t := .unsignedShort)
    PacketType.csChatReqSectorMove.toWord (by decide)
  have h₂ := h₁.insert (t := .int64) s.accountNo (by simp [length_toBytes, Scalar.sizeof])
  have h₃ := h₂.insert (t := .unsignedShort) (BitVec.ofNat 16 (chance.sectorX % 50))
    (by simp [length_toBytes, Scalar.sizeof])
  have h₄ := h₃.insert (t := .unsignedShort) (BitVec.ofNat 16 (chance.sectorY % 50))
    (by simp [length_toBytes, Scalar.sizeof])
  have hqueue := queue_written s ctx chance (m := moveRequest s.accountNo chance) h₄
  unfold sendSectorMovePacket
  dsimp only
  rw [hqueue]
  split_ifs <;> rfl

/-- **Saying something.** -/
theorem sendChatPacket_eq : s.sendChatPacket ctx chance =
    if s.HasRoom (chatRequest s.accountNo) then
      { s.put ctx chance.rKey (chatRequest s.accountNo) with messagesSent := s.messagesSent + 1 }
    else s := by
  have hlen := length_messageText s.accountNo
  have h₁ := (written_newPacket chance).insert (t := .unsignedShort)
    PacketType.csChatReqMessage.toWord (by decide)
  have h₂ := h₁.insert (t := .int64) s.accountNo (by simp [length_toBytes, Scalar.sizeof])
  have h₃ := h₂.insert (t := .unsignedShort)
    (BitVec.ofNat 16 (2 * (messageText s.accountNo).length))
    (by simp [length_toBytes, Scalar.sizeof])
  have h₄ := h₃.putData_of_le (wideBytes (messageText s.accountNo)) (by
    simp [length_toBytes, Scalar.sizeof, length_wideBytes]
    omega)
  have hencoded : (chatRequest s.accountNo).encoded =
      [] ++ toBytes Scalar.unsignedShort.sizeof PacketType.csChatReqMessage.toWord ++
        toBytes Scalar.int64.sizeof s.accountNo ++
        toBytes Scalar.unsignedShort.sizeof
          (BitVec.ofNat 16 (2 * (messageText s.accountNo).length)) ++
        wideBytes (messageText s.accountNo) := by
    rw [chatRequest, Message.encoded, textBytes, ← List.append_assoc]
    rfl
  rw [← hencoded] at h₄
  have hqueue := queue_written s ctx chance h₄
  unfold sendChatPacket
  dsimp only [putDataW]
  rw [hqueue]
  split_ifs <;> rfl

theorem sendHeartbeatPacket_eq : s.sendHeartbeatPacket ctx chance =
    if s.HasRoom .reqHeartbeat then s.put ctx chance.rKey .reqHeartbeat else s := by
  have h₁ := (written_newPacket chance).insert (t := .unsignedShort)
    PacketType.csChatReqHeartbeat.toWord (by decide)
  have hqueue := queue_written s ctx chance (m := .reqHeartbeat) h₁
  unfold sendHeartbeatPacket
  dsimp only
  rw [hqueue]
  split_ifs <;> rfl

end ClientSession

end NetworkLibrary.ChatDummyClient
