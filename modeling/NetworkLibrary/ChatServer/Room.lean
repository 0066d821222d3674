import NetworkLibrary.ChatServer.Protocol
import NetworkLibrary.Foundations.Product

/-!
# The chat room

What `ChatServer` is for, without characters, sector lists and packets: a room of members, who log
in, go to a sector, and are heard by the members in the sectors around theirs (`Room`). As long as
each session sends what the room accepts, laid out as `ChatProtocol.h` says, the server is that
room: every session is sent exactly the packets that the room has for it, in the same order, and the
server kills no session for what it sends (`room_refined`).
-/

namespace NetworkLibrary.ChatServer

open Foundations

/-! ## The room -/

/-- What a member has logged in with. -/
structure Profile where
  accountNo : BitVec 64
  id : Name
  nickname : Name
  deriving DecidableEq

/-- A member of the room. -/
inductive Member
  | joined
  /-- Logged in, and in a sector (row and column) once it has gone to one. -/
  | loggedIn (profile : Profile) (sector : Option (ℤ × ℤ))

/-- The members, what has been sent to each, when it was last heard of, and how often it has been
dropped for its silence. -/
structure Room where
  member : UInt64 → Option Member
  received : UInt64 → List Message
  lastHeard : UInt64 → UInt32
  dropped : UInt64 → ℕ

inductive Input
  | join (sessionID : UInt64) (time : UInt32)
  | request (sessionID : UInt64) (message : Message) (time : UInt32)
  | leave (sessionID : UInt64)
  /-- The room looks for members that have been silent for more than 40 seconds. -/
  | heartbeat (time : UInt32)

instance (a b : ℤ × ℤ) : Decidable (Near a b) := inferInstanceAs (Decidable (_ ∧ _))

namespace Room

variable (r : Room)

def setMember (sessionID : UInt64) (member : Option Member) : Room :=
  { r with member := Function.update r.member sessionID member }

def hear (sessionID : UInt64) (time : UInt32) : Room :=
  { r with lastHeard := Function.update r.lastHeard sessionID time }

/-- A packet is sent to the sessions that satisfy `p`. -/
def send (p : UInt64 → Bool) (message : Message) : Room :=
  { r with
    received := fun sessionID =>
      if p sessionID then r.received sessionID ++ [message] else r.received sessionID }

/-- What is said in the sector is heard by the session. -/
def hears (sector : ℤ × ℤ) (sessionID : UInt64) : Bool :=
  match r.member sessionID with
  | some (.loggedIn _ (some other)) => Near sector other
  | _ => false

/-- The session is a member that has been silent. -/
def late (time : UInt32) (sessionID : UInt64) : Bool :=
  (r.member sessionID).isSome && decide (time - r.lastHeard sessionID > 40000)

/-- What comes of a request, if the room accepts it. -/
def answer (sessionID : UInt64) (message : Message) : Option Room :=
  match r.member sessionID, message with
  | some .joined, .reqLogin accountNo id nickname _ =>
    some ((r.setMember sessionID (some (.loggedIn ⟨accountNo, id, nickname⟩ none))).send
      (· == sessionID) (.resLogin 1 accountNo))
  | some (.loggedIn profile _), .reqSectorMove accountNo sectorX sectorY =>
    if profile.accountNo = accountNo ∧ sectorX.toNat < 50 ∧ sectorY.toNat < 50 then
      some ((r.setMember sessionID
        (some (.loggedIn profile (some (sectorY.toNat, sectorX.toNat))))).send (· == sessionID)
          (.resSectorMove accountNo sectorX sectorY))
    else none
  | some (.loggedIn profile (some sector)), .reqMessage accountNo text =>
    if profile.accountNo = accountNo ∧ text.length ≤ 456 then
      some (r.send (r.hears sector) (.resMessage accountNo profile.id profile.nickname text))
    else none
  | some _, .reqHeartbeat => some r
  | _, _ => none

/-- What the room does, if it accepts the input. -/
def step : Input → Option Room
  | .join sessionID time =>
    match r.member sessionID with
    | none => some ((r.setMember sessionID (some .joined)).hear sessionID time)
    | some _ => none
  | .request sessionID message time => (r.hear sessionID time).answer sessionID message
  | .leave sessionID => some (r.setMember sessionID none)
  | .heartbeat time =>
    some { r with
      dropped := fun sessionID => r.dropped sessionID + if r.late time sessionID then 1 else 0 }

@[simp] theorem member_setMember (sessionID : UInt64) (member : Option Member) (id : UInt64) :
    (r.setMember sessionID member).member id =
      if id = sessionID then member else r.member id :=
  Function.update_apply ..

end Room

def Room.empty : Room := ⟨fun _ => none, fun _ => [], fun _ => 0, fun _ => 0⟩

/-- The runs of the room. -/
def chatRoom : Lts Room Input where
  init r := r = .empty
  step := Room.step

/-! ## The server -/

/-- The job brings the input to the server, with a request laid out as the protocol says. -/
inductive Speaks : Job → Input → Prop
  | join {sessionID : UInt64} {c : ℕ} {time : UInt32} :
    Speaks (.join sessionID c time) (.join sessionID time)
  | message {sessionID : UInt64} {m : Delivered} {time : UInt32} {message : Message} :
    m.payload = message.encoded →
      Speaks (.message sessionID m time) (.request sessionID message time)
  | leave {sessionID : UInt64} : Speaks (.leave sessionID) (.leave sessionID)
  | heartbeat {time : UInt32} : Speaks (.heartbeat time) (.heartbeat time)

/-- The data of the packets sent to a session. -/
def packetsTo (sessionID : UInt64) (events : List Event) : List (List UInt8) :=
  events.filterMap fun
    | .sendPacket id data => if id = sessionID then some data else none
    | _ => none

/-- The sessions that `KillSession` is called for. -/
def killed (events : List Event) : List UInt64 :=
  events.filterMap fun
    | .killSession sessionID => some sessionID
    | _ => none

/-- What the server knows of a member. -/
def Shows (s : Server) (c : ℕ) : Member → Prop
  | .joined => s.place c = none
  | .loggedIn profile sector =>
    (s.characters c).Knows profile.accountNo profile.id profile.nickname ∧ s.place c = sector

/-- The session has a character if it is a member, and the character has what the room has. -/
def Mirrored (s : Server) (r : Room) (sessionID : UInt64) : Prop :=
  Option.Rel (fun c m => Shows s c m ∧ (s.characters c).lastRecvTime = r.lastHeard sessionID)
    (s.findCharacter sessionID) (r.member sessionID)

/-- The server shows the members of the room. -/
def Mirrors (s : Server) (r : Room) : Prop := ∀ sessionID, Mirrored s r sessionID

/-- The server is the room again after an input, and what it has done is what the room has done. -/
structure Answers (t : Server) (events : List Event) (r r' : Room) : Prop where
  mirrors : Mirrors t r'
  sent : ∀ sessionID, ∃ ms, r'.received sessionID = r.received sessionID ++ ms ∧
    packetsTo sessionID events = ms.map Message.encoded
  dropped : ∀ sessionID,
    r'.dropped sessionID = r.dropped sessionID + (killed events).count sessionID
  safe : Safe events

variable {s t : Server} {r r' : Room} {sessionID : UInt64} {c : ℕ} {time : UInt32} {m : Member}
  {events : List Event} {p : Packet}

/-- **The requests that the room accepts.** -/
theorem Room.answer_cases {message : Message} (h : r.answer sessionID message = some r') :
    (∃ accountNo id nickname sessionKey, r.member sessionID = some .joined ∧
      message = .reqLogin accountNo id nickname sessionKey ∧
      r' = (r.setMember sessionID (some (.loggedIn ⟨accountNo, id, nickname⟩ none))).send
        (· == sessionID) (.resLogin 1 accountNo)) ∨
    (∃ profile sector sectorX sectorY, r.member sessionID = some (.loggedIn profile sector) ∧
      message = .reqSectorMove profile.accountNo sectorX sectorY ∧
      sectorX.toNat < 50 ∧ sectorY.toNat < 50 ∧
      r' = (r.setMember sessionID
        (some (.loggedIn profile (some (sectorY.toNat, sectorX.toNat))))).send (· == sessionID)
          (.resSectorMove profile.accountNo sectorX sectorY)) ∨
    (∃ profile sector text, r.member sessionID = some (.loggedIn profile (some sector)) ∧
      message = .reqMessage profile.accountNo text ∧ text.length ≤ 456 ∧
      r' = r.send (r.hears sector)
        (.resMessage profile.accountNo profile.id profile.nickname text)) ∨
    (message = .reqHeartbeat ∧ r' = r) := by
  revert h
  fun_cases Room.answer r sessionID message <;> intro h <;> cases h
  case case1 accountNo id nickname sessionKey hm =>
    exact .inl ⟨accountNo, id, nickname, sessionKey, hm, rfl, rfl⟩
  case case2 profile sector accountNo sectorX sectorY hm hif =>
    obtain ⟨rfl, hx, hy⟩ := hif
    exact .inr (.inl ⟨profile, sector, sectorX, sectorY, hm, rfl, hx, hy, rfl⟩)
  case case4 profile sector accountNo text hm hif =>
    obtain ⟨rfl, hlen⟩ := hif
    exact .inr (.inr (.inl ⟨profile, sector, text, hm, rfl, hlen, rfl⟩))
  case case6 => exact .inr (.inr (.inr ⟨rfl, rfl⟩))

/-! ## Members -/

theorem Mirrored.exists_member (h : Mirrored s r sessionID)
    (hc : s.findCharacter sessionID = some c) : ∃ m, r.member sessionID = some m ∧ Shows s c m ∧
      (s.characters c).lastRecvTime = r.lastHeard sessionID := by
  rw [Mirrored, hc] at h
  generalize r.member sessionID = o at h
  cases h with
  | some h => exact ⟨_, rfl, h⟩

theorem Mirrored.shows (h : Mirrored s r sessionID) (hc : s.findCharacter sessionID = some c)
    (hm : r.member sessionID = some m) :
    Shows s c m ∧ (s.characters c).lastRecvTime = r.lastHeard sessionID := by
  obtain ⟨m', hm', h⟩ := h.exists_member hc
  obtain rfl := Option.some.inj (hm.symm.trans hm')
  exact h

theorem Mirrored.exists_character (h : Mirrored s r sessionID) (hm : r.member sessionID = some m) :
    ∃ c, s.findCharacter sessionID = some c ∧ Shows s c m ∧
      (s.characters c).lastRecvTime = r.lastHeard sessionID := by
  rw [Mirrored, hm] at h
  generalize s.findCharacter sessionID = o at h
  cases h with
  | some h => exact ⟨_, rfl, h⟩

theorem mirrored_of_some (hc : s.findCharacter sessionID = some c)
    (hm : r.member sessionID = some m) (hshows : Shows s c m)
    (hheard : (s.characters c).lastRecvTime = r.lastHeard sessionID) : Mirrored s r sessionID := by
  rw [Mirrored, hc, hm]
  exact .some ⟨hshows, hheard⟩

theorem mirrored_of_none (hc : s.findCharacter sessionID = none)
    (hm : r.member sessionID = none) : Mirrored s r sessionID := by
  rw [Mirrored, hc, hm]
  exact .none

theorem Shows.congr (hplace : t.place c = s.place c) (hchar : t.characters c = s.characters c)
    (h : Shows s c m) : Shows t c m := by
  cases m with
  | joined => exact hplace.trans h
  | loggedIn profile sector => exact ⟨hchar ▸ h.1, hplace.trans h.2⟩

/-- **An input of one session** leaves the other members alone if it leaves their characters alone.
-/
theorem Mirrors.change (h : Mirrors s r) (hself : Mirrored t r' sessionID)
    (hroom : ∀ id, id ≠ sessionID →
      r'.member id = r.member id ∧ r'.lastHeard id = r.lastHeard id)
    (hfind : ∀ id, id ≠ sessionID → t.findCharacter id = s.findCharacter id)
    (hchar : ∀ id d, id ≠ sessionID → s.findCharacter id = some d →
      t.inUse d = s.inUse d ∧ t.characters d = s.characters d) : Mirrors t r' := by
  intro id
  by_cases hid : id = sessionID
  · rwa [hid]
  · obtain ⟨hmember, hheard⟩ := hroom id hid
    cases hd : s.findCharacter id with
    | none =>
      refine mirrored_of_none ((hfind id hid).trans hd) ?_
      rw [hmember]
      by_contra hne
      obtain ⟨m, hm⟩ := Option.ne_none_iff_exists'.1 hne
      obtain ⟨d, hd', -⟩ := (h id).exists_character hm
      cases hd.symm.trans hd'
    | some d =>
      obtain ⟨m, hm, hshows, htime⟩ := (h id).exists_member hd
      obtain ⟨hinUse, hsame⟩ := hchar id d hid hd
      refine mirrored_of_some ((hfind id hid).trans hd) (hmember.trans hm)
        (hshows.congr (Server.place_congr hinUse hsame) hsame) ?_
      rw [hsame, hheard]
      exact htime

/-- The character of a member changes. -/
theorem Mirrors.set (h : Mirrors s r) (hs : s.Consistent) (hc : s.findCharacter sessionID = some c)
    (hmap : t.characterMap = s.characterMap) (hinUse : t.inUse = s.inUse)
    (hrest : ∀ d, d ≠ c → t.characters d = s.characters d)
    (hroom : ∀ id, id ≠ sessionID →
      r'.member id = r.member id ∧ r'.lastHeard id = r.lastHeard id)
    (hm : r'.member sessionID = some m) (hshows : Shows t c m)
    (hheard : (t.characters c).lastRecvTime = r'.lastHeard sessionID) : Mirrors t r' := by
  have hfind (id : UInt64) : t.findCharacter id = s.findCharacter id := by
    rw [Server.findCharacter, hmap, Server.findCharacter]
  refine h.change (mirrored_of_some ((hfind sessionID).trans hc) hm hshows hheard) hroom
    (fun id _ => hfind id) fun id d hid hd => ⟨congrFun hinUse d, hrest d ?_⟩
  rintro rfl
  exact hid (hs.findCharacter_inj hd hc)

theorem Mirrors.join (h : Mirrors s r) (hs : s.Consistent) (hid : sessionID ∉ s.characterMap)
    (hu : s.createCharacter sessionID c time = some t) :
    Mirrors t ((r.setMember sessionID (some .joined)).hear sessionID time) := by
  obtain ⟨hfree, rfl⟩ := Server.createCharacter_eq_some hid hu
  refine h.change (mirrored_of_some (AList.lookup_insert _) (Function.update_self ..) ?_ ?_)
    (fun id hne => ⟨Function.update_of_ne hne .., Function.update_of_ne hne ..⟩)
    (fun id hne => AList.lookup_insert_ne hne) fun id d hne hd => ?_
  · refine Server.place_of_not_entered ?_
    dsimp only
    rw [Function.update_self]
    exact fun hentered => hentered rfl
  · dsimp only [Room.hear]
    rw [Function.update_self, Function.update_self]
  · have hdc : d ≠ c := by
      rintro rfl
      rw [hs.inUse_of_findCharacter hd] at hfree
      cases hfree
    exact ⟨Function.update_of_ne hdc .., Function.update_of_ne hdc ..⟩

theorem Mirrors.leave (h : Mirrors s r) (hs : s.Consistent)
    (hc : s.findCharacter sessionID = some c) :
    Mirrors (s.leaveCharacter sessionID).1 (r.setMember sessionID none) := by
  rw [Server.leaveCharacter_eq hc]
  refine h.change (mirrored_of_none (AList.lookup_erase ..) (Function.update_self ..))
    (fun id hne => ⟨Function.update_of_ne hne .., rfl⟩) (fun id hne => AList.lookup_erase_ne hne)
    fun id d hne hd => ⟨Function.update_of_ne ?_ .., rfl⟩
  rintro rfl
  exact hne (hs.findCharacter_inj hd hc)

/-- A message is heard. -/
theorem Mirrors.touch (h : Mirrors s r) (hs : s.Consistent)
    (hc : s.findCharacter sessionID = some c) (time : UInt32) :
    Mirrors (s.touch c time) (r.hear sessionID time) := by
  obtain ⟨m, hm, hshows, -⟩ := (h sessionID).exists_member hc
  have hplace := (Server.frame_touch (s := s) c time).place c
  refine h.set hs hc rfl rfl (fun d hd => Server.characters_set_of_ne hd)
    (fun id hid => ⟨rfl, Function.update_of_ne hid ..⟩) hm ?_ ?_
  · cases m with
    | joined => exact hplace.trans hshows
    | loggedIn profile sector =>
      refine ⟨?_, hplace.trans hshows.2⟩
      rw [characters_touch]
      exact ⟨hshows.1.accountNo, hshows.1.id, hshows.1.nickname⟩
  · rw [characters_touch]
    exact (Function.update_self sessionID time r.lastHeard).symm

/-! ## What is sent -/

@[simp] theorem packetsTo_nil : packetsTo sessionID [] = [] := rfl

@[simp] theorem packetsTo_sendPacket (id : UInt64) (data : List UInt8) :
    packetsTo sessionID (.sendPacket id data :: events) =
      (if id = sessionID then [data] else []) ++ packetsTo sessionID events := by
  by_cases hid : id = sessionID
  · simp [packetsTo, hid]
  · simp [packetsTo, hid]

@[simp] theorem packetsTo_getData (size : ℤ) :
    packetsTo sessionID (.getData size :: events) = packetsTo sessionID events := rfl

@[simp] theorem packetsTo_freePacket :
    packetsTo sessionID (.freePacket :: events) = packetsTo sessionID events := rfl

@[simp] theorem packetsTo_append (sessionID : UInt64) (events events' : List Event) :
    packetsTo sessionID (events ++ events') =
      packetsTo sessionID events ++ packetsTo sessionID events' :=
  List.filterMap_append

@[simp] theorem killed_append (events events' : List Event) :
    killed (events ++ events') = killed events ++ killed events' :=
  List.filterMap_append

/-- The same packet for several characters. -/
theorem packetsTo_map (f : ℕ → UInt64) (data : List UInt8) (characters : List ℕ) :
    packetsTo sessionID (characters.map fun c => .sendPacket (f c) data) =
      List.replicate ((characters.map f).count sessionID) data := by
  induction characters with
  | nil => rfl
  | cons c characters ih =>
    rw [List.map_cons, List.map_cons, packetsTo_sendPacket, ih, List.count_cons]
    by_cases hc : f c = sessionID
    · rw [if_pos hc, if_pos (beq_iff_eq.2 hc), List.replicate_succ]
      rfl
    · rw [if_neg hc, if_neg (by rwa [beq_iff_eq]), List.nil_append, Nat.add_zero]

theorem packetsTo_sendPacketAround (sectorX sectorY : ℤ) (packet : Packet) :
    packetsTo sessionID (s.sendPacketAround sectorX sectorY packet) =
      List.replicate ((recipients (s.sendPacketAround sectorX sectorY packet)).count sessionID)
        packet.data := by
  rw [recipients_sendPacketAround, sendPacketAround_eq, packetsTo_map fun c =>
    (s.characters c).sessionID]

theorem killed_eq_nil (h : ∀ event ∈ events, ∀ id, event ≠ .killSession id) : killed events = [] :=
  List.filterMap_eq_nil_iff.2 fun event hevent => by
    cases event with
    | killSession id => exact absurd rfl (h _ hevent id)
    | sendPacket | freePacket | getData | crash => rfl

/-- A member is heard where its character is near. -/
theorem Mirrors.hears_iff (h : Mirrors s r) (hs : s.Consistent) (sector : ℤ × ℤ) :
    r.hears sector sessionID = true ↔ IsNear s sector sessionID := by
  constructor
  · intro hhears
    rw [Room.hears] at hhears
    split at hhears
    · rename_i profile other hm
      obtain ⟨c, hc, hshows, -⟩ := (h sessionID).exists_character hm
      obtain ⟨-, hentered, rfl⟩ := Server.place_eq_some.1 hshows.2
      exact ⟨c, hc, hentered, of_decide_eq_true hhears⟩
    · cases hhears
  · rintro ⟨c, hc, hentered, hnear⟩
    have hplace := Server.place_eq_some.2 ⟨hs.inUse_of_findCharacter hc, hentered, rfl⟩
    obtain ⟨m, hm, hshows, -⟩ := (h sessionID).exists_member hc
    cases m with
    | joined => cases hplace.symm.trans hshows
    | loggedIn profile other =>
      obtain rfl := hplace.symm.trans hshows.2
      rw [Room.hears, hm]
      exact decide_eq_true hnear

/-! ## Requests -/

theorem dispatch_sectorMove : s.dispatch sessionID c PacketType.csChatReqSectorMove.toWord p =
    s.sectorMove sessionID c p := by
  rw [Server.dispatch, if_neg (by decide), if_neg (by decide), if_pos rfl]

theorem dispatch_heartbeat :
    s.dispatch sessionID c PacketType.csChatReqHeartbeat.toWord p = (s, []) := by
  rw [Server.dispatch, if_neg (by decide), if_neg (by decide), if_neg (by decide),
    if_neg (by decide), if_pos rfl]

/-- One packet is sent to the session that has asked. -/
theorem sent_self (message : Message) (hr : r'.received = r.received)
    (hevents : ∀ id, packetsTo id events = if sessionID = id then [message.encoded] else [])
    (id : UInt64) :
    ∃ ms, (r'.send (· == sessionID) message).received id = r.received id ++ ms ∧
      packetsTo id events = ms.map Message.encoded := by
  rw [hevents, ← hr]
  dsimp only [Room.send]
  by_cases hid : sessionID = id
  · exact ⟨[message], by rw [if_pos (beq_iff_eq.2 hid.symm)], by rw [if_pos hid]; rfl⟩
  · refine ⟨[], ?_, by rw [if_neg hid]; rfl⟩
    rw [if_neg (by rw [beq_iff_eq]; exact Ne.symm hid), List.append_nil]

theorem answers_login (h : Mirrors s r) (hs : s.Consistent)
    (hc : s.findCharacter sessionID = some c) (hm : r.member sessionID = some .joined)
    {accountNo : BitVec 64} {id nickname : Name} {sessionKey : List UInt8}
    (hp : p.Holds (toBytes 8 accountNo ++ id.bytes ++ nickname.bytes ++ sessionKey))
    (hsize : p.bufferSize = 1024) :
    Answers (s.login sessionID c p).1 (s.login sessionID c p).2 r
      ((r.setMember sessionID (some (.loggedIn ⟨accountNo, id, nickname⟩ none))).send
        (· == sessionID) (.resLogin 1 accountNo)) := by
  obtain ⟨hshows, hheard⟩ := (h sessionID).shows hc hm
  have hx : (s.characters c).sectorX.toInt = -1 := by
    by_contra hne
    cases hshows.symm.trans (Server.place_eq_some.2 ⟨hs.inUse_of_findCharacter hc, hne, rfl⟩)
  have hframe : s.Frame (s.login sessionID c p).1 := Server.frame_login p
  have hlogin := login_eq sessionID hx hp hsize
  rw [hlogin] at hframe ⊢
  refine ⟨h.set hs hc rfl rfl (fun d hd => Server.characters_set_of_ne hd)
    (fun id hid => ⟨Function.update_of_ne hid .., rfl⟩) (Function.update_self ..) ⟨?_, ?_⟩ ?_,
    sent_self _ rfl fun id => by simp, fun _ => rfl, ?_⟩
  · rw [Server.characters_set_self]
    exact ⟨rfl, Name.load_store id _, Name.load_store nickname _⟩
  · exact (hframe.place c).trans hshows
  · rw [Server.characters_set_self]
    exact hheard
  · exact safe_cons.2 ⟨rfl, safe_cons.2 ⟨rfl, safe_cons.2 ⟨rfl, safe_nil⟩⟩⟩

theorem answers_sectorMove (h : Mirrors s r) (hs : s.Consistent)
    (hc : s.findCharacter sessionID = some c) {profile : Profile} {sector : Option (ℤ × ℤ)}
    (hm : r.member sessionID = some (.loggedIn profile sector)) {sectorX sectorY : BitVec 16}
    (hx : sectorX.toNat < 50) (hy : sectorY.toNat < 50)
    (hp : p.Holds (toBytes 8 profile.accountNo ++ toBytes 2 sectorX ++ toBytes 2 sectorY))
    (hsize : p.bufferSize = 1024) :
    Answers (s.sectorMove sessionID c p).1 (s.sectorMove sessionID c p).2 r
      ((r.setMember sessionID
        (some (.loggedIn profile (some (sectorY.toNat, sectorX.toNat))))).send (· == sessionID)
          (.resSectorMove profile.accountNo sectorX sectorY)) := by
  obtain ⟨⟨hknows, -⟩, hheard⟩ := (h sessionID).shows hc hm
  have hinUse := hs.inUse_of_findCharacter hc
  rw [sectorMove_eq hknows.accountNo hx hy hp hsize]
  have henter : (s.enter c sectorX sectorY).characters c =
      { s.characters c with sectorX := sectorX, sectorY := sectorY } := by
    rw [Server.enter_eq]
    exact Function.update_self ..
  refine ⟨h.set hs hc (by rw [Server.enter_eq]) (by rw [Server.enter_eq]) (fun d hd => ?_)
    (fun id hid => ⟨Function.update_of_ne hid .., rfl⟩) (Function.update_self ..) ⟨?_, ?_⟩ ?_,
    sent_self _ rfl fun id => by simp, fun _ => rfl, safe_cons.2 ⟨rfl, safe_nil⟩⟩
  · rw [Server.enter_eq]
    exact Function.update_of_ne hd ..
  · rw [henter]
    exact ⟨hknows.accountNo, hknows.id, hknows.nickname⟩
  · refine Server.place_eq_some.2 ⟨by rwa [Server.enter_eq], ?_, ?_⟩
    · rw [henter, Character.Entered, Server.toInt_of_lt hx]
      omega
    · rw [henter, Character.sector, Server.toInt_of_lt hx, Server.toInt_of_lt hy]
  · rw [henter]
    exact hheard

theorem answers_message (h : Mirrors s r) (hs : s.Consistent)
    (hc : s.findCharacter sessionID = some c) {profile : Profile} {sector : ℤ × ℤ}
    (hm : r.member sessionID = some (.loggedIn profile (some sector))) {text : List UInt16}
    (hlen : text.length ≤ 456)
    (hp : p.Holds (toBytes 8 profile.accountNo ++ textBytes text)) (hsize : p.bufferSize = 1024) :
    Answers (s.chatMessage c p).1 (s.chatMessage c p).2 r
      (r.send (r.hears sector) (.resMessage profile.accountNo profile.id profile.nickname text)) := by
  obtain ⟨⟨hknows, hplace⟩, -⟩ := (h sessionID).shows hc hm
  obtain ⟨messageBuf, packet, hdata, heq⟩ := chatMessage_eq hknows (by omega) hp hsize
  have hsector : ((s.characters c).sectorY.toInt, (s.characters c).sectorX.toInt) = sector :=
    (Server.place_eq_some.1 hplace).2.2
  have hfits : (Message.resMessage profile.accountNo profile.id profile.nickname text).encoded.length
      ≤ 1004 := by
    simp only [Message.encoded, List.length_append, length_textBytes, profile.id.length_eq,
      profile.nickname.length_eq, PacketType.bytes, length_toBytes]
    omega
  rw [List.take_of_length_le hfits] at hdata
  rw [heq]
  refine ⟨h, fun id => ?_, fun id => ?_, safe_cons.2 ⟨rfl, safe_sendPacketAround _ _ packet⟩⟩
  · rw [packetsTo_getData, packetsTo_sendPacketAround, hdata]
    dsimp only [Room.send]
    by_cases hhears : r.hears sector id = true
    · have hnear := hsector ▸ (h.hears_iff hs sector).1 hhears
      rw [if_pos hhears, count_of_isNear hs hnear]
      exact ⟨_, rfl, rfl⟩
    · have hnear := fun hn => hhears ((h.hears_iff hs sector).2 (hsector ▸ hn))
      rw [if_neg hhears, count_of_not_isNear hs hnear]
      exact ⟨[], (List.append_nil _).symm, rfl⟩
  · rw [killed_eq_nil]
    · rfl
    · intro event hevent id
      rcases List.mem_cons.1 hevent with rfl | hevent
      · exact Event.noConfusion
      · obtain ⟨_, _, rfl⟩ := eq_sendPacket_of_mem hevent
        exact Event.noConfusion

theorem Answers.of_hear (sessionID : UInt64) (time : UInt32)
    (h : Answers t events (r.hear sessionID time) r') : Answers t events r r' :=
  ⟨h.mirrors, h.sent, h.dropped, h.safe⟩

/-- A packet of a known type is handled and freed. -/
theorem Answers.messageControl {type : PacketType} {d : Delivered} {tail : List UInt8}
    (hc : s.findCharacter sessionID = some c) (hd : d.payload = type.bytes ++ tail)
    (h : ∀ p : Packet, p.Holds tail → p.bufferSize = 1024 →
      Answers ((s.touch c time).dispatch sessionID c type.toWord p).1
        ((s.touch c time).dispatch sessionID c type.toWord p).2 r r') :
    Answers (s.messageControl sessionID d.packet time).1
      (s.messageControl sessionID d.packet time).2 r r' := by
  obtain ⟨p, hp, hsize, heq⟩ := messageControl_of_type time hc hd
  have hall := h p hp hsize
  rw [heq]
  dsimp only
  rw [if_neg fun hcrash => not_safe_of_crash hcrash hall.safe]
  refine ⟨hall.mirrors, fun id => ?_, fun id => ?_, ?_⟩
  · rw [packetsTo_append, packetsTo_freePacket, packetsTo_nil, List.append_nil]
    exact hall.sent id
  · rw [killed_append]
    exact (hall.dropped id).trans (by rw [show killed [.freePacket] = [] from rfl, List.append_nil])
  · exact safe_append.2 ⟨hall.safe, safe_cons.2 ⟨rfl, safe_nil⟩⟩

/-- **A request that the room accepts.** -/
theorem answers_request (h : Mirrors s r) (hs : s.Consistent)
    (hc : s.findCharacter sessionID = some c) {d : Delivered} {message : Message}
    (hd : d.payload = message.encoded)
    (hr : (r.hear sessionID time).answer sessionID message = some r') :
    Answers (s.messageControl sessionID d.packet time).1
      (s.messageControl sessionID d.packet time).2 r r' := by
  have hframe := Server.frame_touch (s := s) c time
  have ht := hframe.consistent hs
  have hc' := (hframe.findCharacter sessionID).trans hc
  have h' := h.touch hs hc time
  refine Answers.of_hear sessionID time ?_
  rcases Room.answer_cases hr with ⟨accountNo, id, nickname, sessionKey, hm, rfl, rfl⟩ |
    ⟨profile, sector, sectorX, sectorY, hm, rfl, hx, hy, rfl⟩ |
    ⟨profile, sector, text, hm, rfl, hlen, rfl⟩ | ⟨rfl, rfl⟩
  · have hd : d.payload = PacketType.csChatReqLogin.bytes ++
        (toBytes 8 accountNo ++ id.bytes ++ nickname.bytes ++ sessionKey) := by
      rw [hd, Message.encoded]
      simp only [List.append_assoc]
    refine Answers.messageControl hc hd fun p hp hsize => ?_
    rw [dispatch_login]
    exact answers_login h' ht hc' hm hp hsize
  · have hd : d.payload = PacketType.csChatReqSectorMove.bytes ++
        (toBytes 8 profile.accountNo ++ toBytes 2 sectorX ++ toBytes 2 sectorY) := by
      rw [hd, Message.encoded]
      simp only [List.append_assoc]
    refine Answers.messageControl hc hd fun p hp hsize => ?_
    rw [dispatch_sectorMove]
    exact answers_sectorMove h' ht hc' hm hx hy hp hsize
  · have hd : d.payload = PacketType.csChatReqMessage.bytes ++
        (toBytes 8 profile.accountNo ++ textBytes text) := by
      rw [hd, Message.encoded, List.append_assoc]
    refine Answers.messageControl hc hd fun p hp hsize => ?_
    rw [dispatch_message]
    exact answers_message h' ht hc' hm hlen hp hsize
  · have hd : d.payload = PacketType.csChatReqHeartbeat.bytes ++ [] := by
      rw [hd, Message.encoded, List.append_nil]
    refine Answers.messageControl hc hd fun p hp hsize => ?_
    rw [dispatch_heartbeat]
    exact ⟨h', fun _ => ⟨[], (List.append_nil _).symm, rfl⟩, fun _ => rfl, safe_nil⟩

/-! ## Heartbeat -/

theorem killed_checkHeartBeat (s : Server) (time : UInt32) :
    killed (s.checkHeartBeat time) =
      ((s.characterMap.entries.mergeSort fun x y => x.1 ≤ y.1).filter fun x =>
        time - (s.characters x.2).lastRecvTime > 40000).map fun x =>
          (s.characters x.2).sessionID := by
  rw [Server.checkHeartBeat, killed]
  generalize s.characterMap.entries.mergeSort (fun x y => decide (x.1 ≤ y.1)) = characters
  induction characters with
  | nil => rfl
  | cons x characters ih =>
    dsimp only at ih ⊢
    by_cases hlate : time - (s.characters x.2).lastRecvTime > 40000
    · simp only [List.filterMap_cons, List.filter_cons, hlate, if_pos, decide_true, List.map_cons, ih]
    · simp only [List.filterMap_cons, List.filter_cons, hlate, if_false, decide_false,
        Bool.false_eq_true, ih]

theorem Mirrors.late_iff (h : Mirrors s r) : r.late time sessionID = true ↔
    ∃ c, s.findCharacter sessionID = some c ∧ time - (s.characters c).lastRecvTime > 40000 := by
  rw [Room.late, Bool.and_eq_true, decide_eq_true_eq]
  constructor
  · rintro ⟨hm, hlate⟩
    obtain ⟨m, hm⟩ := Option.isSome_iff_exists.1 hm
    obtain ⟨c, hc, -, hheard⟩ := (h sessionID).exists_character hm
    exact ⟨c, hc, by rwa [hheard]⟩
  · rintro ⟨c, hc, hlate⟩
    obtain ⟨m, hm, -, hheard⟩ := (h sessionID).exists_member hc
    exact ⟨by rw [hm]; rfl, by rwa [← hheard]⟩

/-- **A heartbeat** kills the sessions that have been silent, once each, and no other. -/
theorem count_checkHeartBeat (h : Mirrors s r) (hs : s.Consistent) (time : UInt32)
    (sessionID : UInt64) : (killed (s.checkHeartBeat time)).count sessionID =
      if r.late time sessionID then 1 else 0 := by
  rw [killed_checkHeartBeat]
  set characters := s.characterMap.entries.mergeSort fun x y => decide (x.1 ≤ y.1) with hchars
  have hperm : characters.Perm s.characterMap.entries := List.mergeSort_perm _ _
  have hsession : ∀ x ∈ characters, (s.characters x.2).sessionID = x.1 := fun x hx =>
    hs.session x.1 x.2 (AList.mem_lookup_iff.2 (hperm.mem_iff.1 hx))
  set late := characters.filter fun x => decide (time - (s.characters x.2).lastRecvTime > 40000)
  have hmap : (late.map fun x => (s.characters x.2).sessionID) = late.map Sigma.fst :=
    List.map_congr_left fun x hx => hsession x (List.mem_of_mem_filter hx)
  have hnodup : (late.map Sigma.fst).Nodup :=
    (hperm.map Sigma.fst).nodup_iff.2 s.characterMap.keys_nodup |>.sublist
      (List.filter_sublist.map _)
  rw [hmap, hnodup.count]
  refine if_congr ?_ rfl rfl
  rw [h.late_iff, List.mem_map]
  constructor
  · rintro ⟨⟨id, c⟩, hx, rfl⟩
    obtain ⟨hmem, hlate⟩ := List.mem_filter.1 hx
    exact ⟨c, AList.mem_lookup_iff.2 (hperm.mem_iff.1 hmem), of_decide_eq_true hlate⟩
  · rintro ⟨c, hc, hlate⟩
    exact ⟨⟨sessionID, c⟩, List.mem_filter.2
      ⟨hperm.mem_iff.2 (AList.mem_lookup_iff.1 hc), decide_eq_true hlate⟩, rfl⟩

/-! ## Runs -/

/-- **One job.** -/
theorem answers_step {s t : State} {job : Job} {input : Input} (hs : jobs.Reachable s)
    (h : Mirrors s.server r) (hspeaks : Speaks job input) (hst : jobs.step s job = some t)
    (hr : r.step input = some r') :
    ∃ events, t.events = s.events ++ events ∧ Answers t.server events r r' := by
  obtain ⟨-, horder, server, events, hupdate, rfl⟩ := step_eq_some.1 hst
  refine ⟨events, rfl, ?_⟩
  have hserver := (consistent_of_reachable hs).server
  have hmap := (consistent_of_reachable hs).map
  cases hspeaks with
  | @join sessionID c time =>
    have hid : sessionID ∉ s.server.characterMap := by
      rw [hmap, show s.phase sessionID = .unknown from of_decide_eq_true horder]
      exact Phase.noConfusion
    obtain ⟨u, hu, hpair⟩ := Option.map_eq_some_iff.1 hupdate
    obtain ⟨rfl, rfl⟩ := Prod.mk.inj hpair
    obtain rfl : (r.setMember sessionID (some .joined)).hear sessionID time = r' := by
      rw [Room.step] at hr
      split at hr
      · exact Option.some.inj hr
      · cases hr
    exact ⟨h.join hserver hid hu, fun _ => ⟨[], (List.append_nil _).symm, rfl⟩, fun _ => rfl,
      safe_nil⟩
  | @message sessionID d time message hd =>
    obtain ⟨c, hc⟩ := Option.isSome_iff_exists.1
      (AList.lookup_isSome.2 ((hmap sessionID).2 (of_decide_eq_true horder)))
    have hpair := Option.some.inj hupdate
    have hanswers := answers_request h hserver hc hd hr
    rw [hpair] at hanswers
    exact hanswers
  | @leave sessionID =>
    obtain ⟨c, hc⟩ := Option.isSome_iff_exists.1
      (AList.lookup_isSome.2 ((hmap sessionID).2 (of_decide_eq_true horder)))
    have hmirrors := h.leave hserver hc
    have hpair := Option.some.inj hupdate
    obtain rfl := Option.some.inj hr
    rw [hpair] at hmirrors
    have hnil : (s.server.leaveCharacter sessionID).2 = [] := by
      rw [Server.leaveCharacter_eq hc]
    rw [hpair] at hnil
    dsimp only at hnil hmirrors
    rw [hnil]
    exact ⟨hmirrors, fun _ => ⟨[], (List.append_nil _).symm, rfl⟩, fun _ => rfl, safe_nil⟩
  | @heartbeat time =>
    obtain ⟨rfl, rfl⟩ := Prod.mk.inj (Option.some.inj hupdate)
    obtain rfl := Option.some.inj hr
    refine ⟨h, fun id => ⟨[], (List.append_nil _).symm, ?_⟩, fun id => ?_, safe_checkHeartBeat⟩
    · refine List.filterMap_eq_nil_iff.2 fun event hevent => ?_
      obtain ⟨x, -, hx⟩ := List.mem_filterMap.1 hevent
      dsimp only at hx
      split_ifs at hx
      obtain rfl := Option.some.inj hx
      rfl
    · rw [count_checkHeartBeat h hserver]

/-- What the server has done is what the room has done. -/
structure Refines (s : State) (r : Room) : Prop where
  mirrors : Mirrors s.server r
  sent : ∀ sessionID, packetsTo sessionID s.events = (r.received sessionID).map Message.encoded
  dropped : ∀ sessionID, (killed s.events).count sessionID = r.dropped sessionID
  safe : Safe s.events

theorem refines {s : State × Room}
    (h : (jobs.prod chatRoom).ReachableVia (fun _ l => Speaks l.1 l.2) s) : Refines s.1 s.2 := by
  refine h.related (J := jobs.Reachable) (R := Refines) id ?_ ?_
  · rintro s _ ⟨hmap, -, -, -, hevents⟩ rfl
    refine ⟨fun id => mirrored_of_none ?_ rfl, fun id => ?_, fun id => ?_, ?_⟩
    · rw [Server.findCharacter, hmap, AList.lookup_empty]
    · rw [hevents]
      rfl
    · rw [hevents]
      rfl
    · rw [hevents]
      exact safe_nil
  · intro s r job input t r' hs _ ih hspeaks hst hr
    obtain ⟨events, hevents, hanswers⟩ := answers_step hs ih.mirrors hspeaks hst hr
    refine ⟨hanswers.mirrors, fun id => ?_, fun id => ?_, ?_⟩
    · obtain ⟨ms, hms, hto⟩ := hanswers.sent id
      rw [hevents, packetsTo_append, ih.sent, hms, hto, List.map_append]
    · rw [hevents, killed_append, List.count_append, ih.dropped, hanswers.dropped]
    · rw [hevents]
      exact safe_append.2 ⟨ih.safe, hanswers.safe⟩

/-- The members are the sessions whose jobs are taken. -/
theorem member_ne_none_iff {s : State × Room}
    (h : (jobs.prod chatRoom).ReachableVia (fun _ l => Speaks l.1 l.2) s) :
    s.2.member sessionID ≠ none ↔ s.1.phase sessionID = .joined := by
  have hrefines := refines h
  have hmap := (consistent_of_reachable h.fst).map
  rw [← hmap sessionID, ← AList.lookup_isSome, Option.isSome_iff_exists]
  constructor
  · intro hne
    obtain ⟨m, hm⟩ := Option.ne_none_iff_exists'.1 hne
    obtain ⟨c, hc, -⟩ := (hrefines.mirrors sessionID).exists_character hm
    exact ⟨c, hc⟩
  · rintro ⟨c, hc⟩
    obtain ⟨m, hm, -⟩ := (hrefines.mirrors sessionID).exists_member hc
    rw [hm]
    exact Option.some_ne_none m

/-- **The server is the chat room.** In every run in which each request is one that the room
accepts, laid out as the protocol says: every session has been sent the packets that the room has
for it, in their order and nothing else; it has been killed as often as the room has dropped it for
its silence; and its jobs are taken as long as it is a member. `Crash` is not reached and `GetData`
does not copy a negative number of bytes. -/
theorem room_refined {s : State × Room}
    (h : (jobs.prod chatRoom).ReachableVia (fun _ l => Speaks l.1 l.2) s) :
    (∀ sessionID,
      packetsTo sessionID s.1.events = (s.2.received sessionID).map Message.encoded ∧
        (killed s.1.events).count sessionID = s.2.dropped sessionID ∧
        (s.2.member sessionID ≠ none ↔ s.1.phase sessionID = .joined)) ∧ Safe s.1.events := by
  have hrefines := refines h
  exact ⟨fun id => ⟨hrefines.sent id, hrefines.dropped id, member_ne_none_iff h⟩, hrefines.safe⟩

/-- `Speaks`, decided. -/
def speaks : Job → Input → Bool
  | .join sessionID _ time, .join id time' => sessionID = id ∧ time = time'
  | .message sessionID m time, .request id message time' =>
    (sessionID = id ∧ time = time') ∧ m.payload = message.encoded
  | .leave sessionID, .leave id => sessionID = id
  | .heartbeat time, .heartbeat time' => time = time'
  | _, _ => false

theorem speaks_spec (job : Job) (input : Input) (h : speaks job input = true) :
    Speaks job input := by
  revert h
  fun_cases speaks job input <;> intro h
  case case1 =>
    obtain ⟨rfl, rfl⟩ := of_decide_eq_true h
    exact .join
  case case2 =>
    obtain ⟨⟨rfl, rfl⟩, hm⟩ := of_decide_eq_true h
    exact .message hm
  case case3 =>
    obtain rfl := of_decide_eq_true h
    exact .leave
  case case4 =>
    obtain rfl := of_decide_eq_true h
    exact .heartbeat
  case case5 => cases h

def Name.zero : Name := ⟨.replicate 40 0, rfl⟩

/-- What two sessions send: both log in and go to sectors that are next to each other, and the first
one says something. -/
def conversation : List (UInt64 × Message) :=
  [(1, .reqLogin 7 .zero .zero []), (2, .reqLogin 8 .zero .zero []), (1, .reqSectorMove 7 3 4),
    (2, .reqSectorMove 8 4 4), (1, .reqMessage 7 [72, 105])]

/-- The labels of a conversation after both have joined. -/
def talk : List (Job × Input) :=
  [(.join 1 0 0, .join 1 0), (.join 2 1 0, .join 2 0)] ++
    conversation.filterMap fun x =>
      if h : x.2.encoded.length ≤ 1004 then
        some (.message x.1 (.ofList x.2.encoded h) 5, .request x.1 x.2 5)
      else none

theorem room_refined_talk : ∃ s : State × Room,
    (jobs.prod chatRoom).ReachableVia (fun _ l => Speaks l.1 l.2) s ∧
    packetsTo 2 s.1.events = [Message.resLogin 1 8, .resSectorMove 8 4 4,
      .resMessage 7 .zero .zero [72, 105]].map Message.encoded ∧ Safe s.1.events := by
  have hinit : (jobs.prod chatRoom).init (.empty, .empty) := ⟨init_empty, rfl⟩
  obtain ⟨s, hs, hp⟩ := Lts.exists_reachableVia_of_run (c := fun _ l => speaks l.1 l.2)
    (fun _ l h => speaks_spec l.1 l.2 h) hinit talk
    (p := fun s => s.2.received 2 = [.resLogin 1 8, .resSectorMove 8 4 4,
      .resMessage 7 .zero .zero [72, 105]]) (by decide +kernel)
  obtain ⟨hall, hsafe⟩ := room_refined hs
  have hp := of_decide_eq_true hp
  refine ⟨s, hs, ?_, hsafe⟩
  rw [(hall 2).1, hp]

end NetworkLibrary.ChatServer
