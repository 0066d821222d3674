import NetworkLibrary.ChatDummyClient.Receive
import NetworkLibrary.ChatServer.Room

/-!
# What a session and the server say to each other

A session logs in, goes to a sector, and from then on says something or shows that it is there, as
it likes (`Dialog`). The room accepts each request of a dialog at its turn (`Stage.answer`), and
answers the first one with the one `kCsChatResLogin` that the session is to get.
-/

namespace NetworkLibrary.ChatDummyClient

open Foundations ChatServer Packet

/-- The requests that a session may send at a turn. -/
def Turn (globalIdx : Fin (2 ^ 31)) : ℕ → Message → Prop
  | 0, m => m = loginRequest globalIdx
  | 1, m => ∃ chance, m = moveRequest (accountNoOf globalIdx) chance
  | _ + 2, m => (∃ chance, m = moveRequest (accountNoOf globalIdx) chance) ∨
      m = chatRequest (accountNoOf globalIdx) ∨ m = .reqHeartbeat

/-- The requests that a session sends, in their order. -/
def Dialog (globalIdx : Fin (2 ^ 31)) (ms : List Message) : Prop :=
  ∀ i m, ms[i]? = some m → Turn globalIdx i m

/-- What the server sends to a session. -/
inductive Answer : Message → Prop
  | login (accountNo : BitVec 64) : Answer (.resLogin 1 accountNo)
  | move (accountNo : BitVec 64) (sectorX sectorY : BitVec 16) :
    Answer (.resSectorMove accountNo sectorX sectorY)
  | message (accountNo : BitVec 64) (id nickname : Name) {text : List UInt16} :
    text.length ≤ 456 → Answer (.resMessage accountNo id nickname text)

def isResLogin : Message → Bool
  | .resLogin .. => true
  | _ => false

def isResMessage : Message → Bool
  | .resMessage .. => true
  | _ => false

/-- What a session has logged in with. -/
def profileOf (globalIdx : Fin (2 ^ 31)) : Profile :=
  ⟨accountNoOf globalIdx, nameOf globalIdx, nameOf globalIdx⟩

/-- The member that the room has after so many requests of a dialog. -/
def Stage (globalIdx : Fin (2 ^ 31)) : ℕ → Member → Prop
  | 0, m => m = .joined
  | 1, m => m = .loggedIn (profileOf globalIdx) none
  | _ + 2, m => ∃ sector, m = .loggedIn (profileOf globalIdx) (some sector)

variable {globalIdx : Fin (2 ^ 31)} {k : ℕ} {m : Message} {ms : List Message} {member : Member}
  {r : Room} {sessionID : UInt64}

/-! ## Sizes -/

theorem length_encoded_loginRequest : (loginRequest globalIdx).encoded.length = 154 := by
  simp only [loginRequest, Message.encoded, PacketType.bytes, List.length_append, length_toBytes,
    (nameOf globalIdx).length_eq, List.length_replicate]

theorem length_encoded_moveRequest (accountNo : BitVec 64) (chance : Chance) :
    (moveRequest accountNo chance).encoded.length = 14 := by
  simp only [moveRequest, Message.encoded, PacketType.bytes, List.length_append, length_toBytes]

theorem Turn.fitting (h : Turn globalIdx k m) : Delivery.Fitting m.encoded := by
  have hlogin : (loginRequest globalIdx).encoded.length = 154 := length_encoded_loginRequest
  have hmove := length_encoded_moveRequest (accountNoOf globalIdx)
  match k, h with
  | 0, h =>
    obtain rfl := h
    exact ⟨by omega, by omega⟩
  | 1, ⟨chance, h⟩ =>
    obtain rfl := h
    have := hmove chance
    exact ⟨by omega, by omega⟩
  | _ + 2, .inl ⟨chance, h⟩ =>
    obtain rfl := h
    have := hmove chance
    exact ⟨by omega, by omega⟩
  | _ + 2, .inr (.inl h) =>
    obtain rfl := h
    have htext := length_messageText (accountNoOf globalIdx)
    simp only [Delivery.Fitting, chatRequest, Message.encoded, PacketType.bytes, List.length_append,
      length_toBytes, length_textBytes]
    omega
  | _ + 2, .inr (.inr h) =>
    obtain rfl := h
    exact ⟨by decide, by decide⟩

theorem Answer.fitting (h : Answer m) : Delivery.Fitting m.encoded := by
  cases h with
  | login accountNo =>
    simp only [Delivery.Fitting, Message.encoded, PacketType.bytes, List.length_append,
      length_toBytes]
    omega
  | move accountNo sectorX sectorY =>
    simp only [Delivery.Fitting, Message.encoded, PacketType.bytes, List.length_append,
      length_toBytes]
    omega
  | message accountNo id nickname hlen =>
    simp only [Delivery.Fitting, Message.encoded, PacketType.bytes, List.length_append,
      length_toBytes, length_textBytes, id.length_eq, nickname.length_eq]
    omega

theorem dialog_append (h : Dialog globalIdx ms) (hm : Turn globalIdx ms.length m) :
    Dialog globalIdx (ms ++ [m]) := by
  intro i m' hi
  rcases Nat.lt_or_ge i ms.length with hlt | hge
  · exact h i m' (by rwa [List.getElem?_append_left hlt] at hi)
  · rw [List.getElem?_append_right hge] at hi
    obtain ⟨hzero, rfl⟩ : i - ms.length = 0 ∧ m = m' := by
      cases hk : i - ms.length with
      | zero =>
        rw [hk] at hi
        exact ⟨rfl, Option.some.inj hi⟩
      | succ j => simp [hk] at hi
    rwa [show i = ms.length by omega]

/-! ## The room -/

theorem toNat_sector (n : ℕ) : (BitVec.ofNat 16 (n % 50)).toNat < 50 := by
  rw [BitVec.toNat_ofNat]
  omega

/-- What the room has done with a request at its turn. -/
structure Answered (globalIdx : Fin (2 ^ 31)) (k : ℕ) (sessionID : UInt64) (r r' : Room) :
    Prop where
  member : ∃ member, r'.member sessionID = some member ∧ Stage globalIdx (k + 1) member
  others : ∀ id, id ≠ sessionID → r'.member id = r.member id
  sent : ∀ id, ∃ new, r'.received id = r.received id ++ new ∧ (∀ m ∈ new, Answer m) ∧
    new.countP isResLogin = if id = sessionID ∧ k = 0 then 1 else 0

theorem sent_send (r r' : Room) (hr : r'.received = r.received) (p : UInt64 → Bool) (hm : Answer m)
    (id : UInt64) : ∃ new, (r'.send p m).received id = r.received id ++ new ∧
      (∀ m ∈ new, Answer m) ∧
      new.countP isResLogin = if p id = true ∧ isResLogin m = true then 1 else 0 := by
  rw [← hr]
  dsimp only [Room.send]
  by_cases hp : p id = true
  · refine ⟨[m], if_pos hp, fun m' hm' => by rwa [List.mem_singleton.1 hm'], ?_⟩
    rw [List.countP_singleton]
    exact if_congr (and_iff_right hp).symm rfl rfl
  · refine ⟨[], by rw [if_neg hp, List.append_nil], fun m' hm' => absurd hm' List.not_mem_nil, ?_⟩
    rw [if_neg fun h => hp h.1]
    rfl

theorem Answered.nothing {sessionID : UInt64} (hk : k ≠ 0) {member : Member}
    (hm : r.member sessionID = some member) (hs : Stage globalIdx (k + 1) member) :
    Answered globalIdx k sessionID r r :=
  ⟨⟨member, hm, hs⟩, fun _ _ => rfl,
    fun id => ⟨[], (List.append_nil _).symm, by simp, by simp [hk]⟩⟩

/-- A packet for the session that has asked, whose member has changed. -/
theorem Answered.reply {member : Member} (hs : Stage globalIdx (k + 1) member) (hm : Answer m)
    (hlogin : isResLogin m = true ↔ k = 0) : Answered globalIdx k sessionID r
      ((r.setMember sessionID (some member)).send (· == sessionID) m) where
  member := ⟨member, Function.update_self .., hs⟩
  others id hid := Function.update_of_ne hid ..
  sent id := by
    obtain ⟨new, hnew, hall, hcount⟩ := sent_send r (r.setMember sessionID (some member)) rfl
      (· == sessionID) hm id
    refine ⟨new, hnew, hall, hcount.trans ?_⟩
    simp only [beq_iff_eq, hlogin]

theorem Stage.answer_move (hk : k ≠ 0) {sector : Option (ℤ × ℤ)}
    (hm : r.member sessionID = some (.loggedIn (profileOf globalIdx) sector)) (chance : Chance) :
    ∃ r', r.answer sessionID (moveRequest (accountNoOf globalIdx) chance) = some r' ∧
      Answered globalIdx k sessionID r r' := by
  obtain ⟨k, rfl⟩ := Nat.exists_eq_succ_of_ne_zero hk
  set sectorX := BitVec.ofNat 16 (chance.sectorX % 50)
  set sectorY := BitVec.ofNat 16 (chance.sectorY % 50)
  refine ⟨(r.setMember sessionID (some (.loggedIn (profileOf globalIdx)
    (some (sectorY.toNat, sectorX.toNat))))).send (· == sessionID)
      (.resSectorMove (accountNoOf globalIdx) sectorX sectorY), ?_,
    Answered.reply ⟨_, rfl⟩ (.move _ _ _) (by simp [isResLogin])⟩
  simp only [moveRequest, Room.answer, hm]
  exact if_pos ⟨rfl, toNat_sector chance.sectorX, toNat_sector chance.sectorY⟩

/-- **The room accepts each request of a dialog at its turn.** -/
theorem Stage.answer (hm : r.member sessionID = some member) (hs : Stage globalIdx k member)
    (ht : Turn globalIdx k m) :
    ∃ r', r.answer sessionID m = some r' ∧ Answered globalIdx k sessionID r r' := by
  match k, hs, ht with
  | 0, hs, ht =>
    obtain rfl := hs
    obtain rfl := ht
    refine ⟨_, ?_, Answered.reply rfl (.login (accountNoOf globalIdx)) (by simp [isResLogin])⟩
    simp only [loginRequest, Room.answer, hm]
    rfl
  | 1, hs, ⟨chance, ht⟩ =>
    obtain rfl := hs
    obtain rfl := ht
    exact Stage.answer_move (by decide) hm chance
  | k + 2, ⟨sector, hs⟩, ht =>
    obtain rfl := hs
    rcases ht with ⟨chance, rfl⟩ | rfl | rfl
    · exact Stage.answer_move (by omega) hm chance
    · have hlen : (messageText (accountNoOf globalIdx)).length ≤ 456 :=
        (length_messageText _).trans (by decide)
      refine ⟨r.send (r.hears sector) (.resMessage (accountNoOf globalIdx) (nameOf globalIdx)
        (nameOf globalIdx) (messageText (accountNoOf globalIdx))), ?_, ⟨_, hm, sector, rfl⟩,
        fun _ _ => rfl, fun id => ?_⟩
      · simp only [chatRequest, Room.answer, hm]
        exact if_pos ⟨rfl, hlen⟩
      · obtain ⟨new, hnew, hall, hcount⟩ := sent_send r r rfl (r.hears sector)
          (.message (accountNoOf globalIdx) (nameOf globalIdx) (nameOf globalIdx) hlen) id
        exact ⟨new, hnew, hall, hcount.trans (by simp [isResLogin])⟩
    · refine ⟨r, ?_, .nothing (by omega) hm ⟨sector, rfl⟩⟩
      simp only [Room.answer, hm]

end NetworkLibrary.ChatDummyClient
