import NetworkLibrary.ChatServer.Protocol

/-!
# What is said, and where it shows

`MessageBuf` is one buffer for all characters, and a chat message that announces more text than it
has is sent on with what is left there of the messages before it (`forgets_iff`). What is said shows
nowhere else: runs in which different things are said do the same, but for the text in the packets
that are sent on (`run_alike`).
-/

namespace NetworkLibrary.ChatServer

open Foundations Packet

/-! ## The buffer -/

/-- What `MessageBuf` holds once the text has been read into it and terminated. -/
def heard (messageBuf : ℤ → UInt8) (messageLen : ℕ) (text : List UInt8) : ℤ → UInt8 :=
  store (store messageBuf 0 text) (2 * ((messageLen : ℤ) / 2)) [0, 0]

/-- A chat message without its text, as it is sent on. -/
def Character.head (character : Character) (messageLen : BitVec 16) : List UInt8 :=
  PacketType.csChatResMessage.bytes ++ toBytes 8 character.accountNo ++ load character.id 0 40 ++
    load character.nickname 0 40 ++ toBytes 2 messageLen

/-- Write access to `MessageBuf`. -/
@[simps] def Server.setMessageBuf (s : Server) (messageBuf : ℤ → UInt8) : Server :=
  { s with messageBuf := messageBuf }

/-! ## Alike but for what is said -/

/-- The events are the same, but for what is behind the head of a packet. -/
inductive Event.Alike : Event → Event → Prop
  | same (event : Event) : Alike event event
  | sendPacket {data data' : List UInt8} (sessionID : UInt64) (head : data.take 92 = data'.take 92)
      (length : data.length = data'.length) :
      Alike (.sendPacket sessionID data) (.sendPacket sessionID data')

/-- A chat message of the account that announces `messageLen` bytes of text, and what it has. -/
def Delivered.Says (m : Delivered) (accountNo : BitVec 64) (messageLen : BitVec 16)
    (text : List UInt8) : Prop :=
  m.payload =
    PacketType.csChatReqMessage.bytes ++ toBytes 8 accountNo ++ toBytes 2 messageLen ++ text

/-- The jobs are the same, but for what is said in a chat message. -/
inductive Job.Alike : Job → Job → Prop
  | same (job : Job) : Alike job job
  | message {m m' : Delivered} {accountNo : BitVec 64} {messageLen : BitVec 16}
      {text text' : List UInt8} (sessionID : UInt64) (time : UInt32)
      (first : m.Says accountNo messageLen text) (second : m'.Says accountNo messageLen text')
      (length : text.length = text'.length) :
      Alike (.message sessionID m time) (.message sessionID m' time)

/-- The states are the same, but for what has been said. -/
structure State.Alike (s s' : State) : Prop where
  server : ∃ messageBuf, s'.server = s.server.setMessageBuf messageBuf
  phase : s'.phase = s.phase
  events : List.Forall₂ Event.Alike s.events s'.events

variable {s : Server} {sessionID : UInt64} {c : ℕ} {m : Delivered} {time : UInt32}
  {accountNo : BitVec 64} {messageLen : BitVec 16} {text : List UInt8} {p : Packet}
  {messageBuf : ℤ → UInt8}

theorem alike_refl (events : List Event) : List.Forall₂ Event.Alike events events :=
  List.forall₂_same.2 fun event _ => .same event

theorem crash_mem_iff {events events' : List Event} (h : List.Forall₂ Event.Alike events events') :
    .crash ∈ events ↔ .crash ∈ events' := by
  induction h with
  | nil => rfl
  | cons h _ ih =>
    rw [List.mem_cons, List.mem_cons, ih]
    cases h <;> simp

/-! ## What does not look at the buffer -/

theorem touch_setMessageBuf : (s.setMessageBuf messageBuf).touch c time =
    (s.touch c time).setMessageBuf messageBuf := rfl

theorem createCharacter_setMessageBuf :
    (s.setMessageBuf messageBuf).createCharacter sessionID c time =
      (s.createCharacter sessionID c time).map (·.setMessageBuf messageBuf) := by
  simp only [Server.createCharacter, Server.setMessageBuf_characterMap, Server.setMessageBuf_inUse]
  split_ifs <;> rfl

theorem leaveCharacter_setMessageBuf : (s.setMessageBuf messageBuf).leaveCharacter sessionID =
    ((s.leaveCharacter sessionID).1.setMessageBuf messageBuf, (s.leaveCharacter sessionID).2) := by
  have hfind :
      (s.setMessageBuf messageBuf).findCharacter sessionID = s.findCharacter sessionID := rfl
  unfold Server.leaveCharacter
  rw [hfind]
  cases s.findCharacter sessionID with
  | none => rfl
  | some c =>
    simp only [Server.setMessageBuf_characters]
    split_ifs <;> rfl

theorem login_setMessageBuf : (s.setMessageBuf messageBuf).login sessionID c p =
    ((s.login sessionID c p).1.setMessageBuf messageBuf, (s.login sessionID c p).2) := by
  simp only [Server.login, Server.setMessageBuf_characters]
  split_ifs <;> rfl

theorem enter_setMessageBuf {sectorX sectorY : BitVec 16} :
    (s.setMessageBuf messageBuf).enter c sectorX sectorY =
      (s.enter c sectorX sectorY).setMessageBuf messageBuf := by
  simp only [Server.enter, Server.setMessageBuf_characters]
  split_ifs <;> rfl

theorem sectorMove_setMessageBuf : (s.setMessageBuf messageBuf).sectorMove sessionID c p =
    ((s.sectorMove sessionID c p).1.setMessageBuf messageBuf, (s.sectorMove sessionID c p).2) := by
  simp only [Server.sectorMove, enter_setMessageBuf, Server.setMessageBuf_characters]
  split_ifs <;> rfl

/-! ## What is sent on -/

theorem length_head (character : Character) (messageLen : BitVec 16) :
    (character.head messageLen).length = 92 := by
  simp only [Character.head, PacketType.bytes, List.length_append, length_toBytes, length_load]

theorem chatMessage_eq_kill (h : (s.characters c).accountNo ≠ (extractInt64 p).1) :
    s.chatMessage c p = (s, [.killSession (s.characters c).sessionID]) := by
  unfold Server.chatMessage
  dsimp only
  rw [if_pos h]

theorem chatMessage_eq_crash (h : (s.characters c).accountNo = (extractInt64 p).1)
    (hlen : ¬(extractWord (extractInt64 p).2).1.toNat < kMessageBufsize) :
    s.chatMessage c p = (s, [.crash]) := by
  unfold Server.chatMessage
  dsimp only
  rw [if_neg (not_not.2 h), if_pos (not_lt.1 hlen)]

/-- An accepted message is sent on with what `MessageBuf` then holds. -/
theorem chatMessage_eq_heard (haccount : (s.characters c).accountNo = (extractInt64 p).1)
    (hlen : (extractWord (extractInt64 p).2).1.toNat < kMessageBufsize)
    (hsize : p.bufferSize = 1024) :
    let messageLen := (extractWord (extractInt64 p).2).1
    let read := (afterWord p).getData messageLen.toNat
    let messageBuf := heard s.messageBuf messageLen.toNat read.2.1
    ∃ packet : Packet,
      packet.data =
        ((s.characters c).head messageLen ++ load messageBuf 0 messageLen.toNat).take 1004 ∧
      s.chatMessage c p = (s.setMessageBuf messageBuf, .getData read.1 ::
        s.sendPacketAround (s.characters c).sectorX.toInt (s.characters c).sectorY.toInt
          packet) := by
  intro messageLen read messageBuf
  have hclear := written_clear (p := read.2.2) hsize
  have h₁ := hclear.insert (t := .unsignedShort) PacketType.csChatResMessage.toWord (by decide)
  have h₂ := h₁.insert (t := .int64) (s.characters c).accountNo
    (by simp [length_toBytes, Scalar.sizeof])
  have h₃ := h₂.putData_of_le (load (s.characters c).id 0 40)
    (by simp [length_toBytes, Scalar.sizeof])
  have h₄ := h₃.putData_of_le (load (s.characters c).nickname 0 40)
    (by simp [length_toBytes, Scalar.sizeof])
  have h₅ := h₄.insert (t := .unsignedShort) messageLen (by simp [length_toBytes, Scalar.sizeof])
  have h₆ := h₅.putData (load messageBuf 0 messageLen.toNat)
  refine ⟨_, h₆.data, ?_⟩
  unfold Server.chatMessage
  dsimp only
  rw [if_neg (not_not.2 haccount), if_neg (not_le.2 hlen)]
  rfl

theorem crash_notMem_sendPacketAround (sectorX sectorY : ℤ) (packet : Packet) :
    .crash ∉ s.sendPacketAround sectorX sectorY packet := by
  intro h
  obtain ⟨_, _, heq⟩ := eq_sendPacket_of_mem h
  cases heq

/-- `MessageControl` on a chat message of its character's account. -/
theorem messageControl_eq_heard (time : UInt32) (hc : s.findCharacter sessionID = some c)
    (hm : m.Says accountNo messageLen text) (haccount : (s.characters c).accountNo = accountNo)
    (hlen : messageLen.toNat < kMessageBufsize) :
    let messageBuf := heard s.messageBuf messageLen.toNat (text.take messageLen.toNat)
    ∃ packet : Packet,
      packet.data =
        ((s.characters c).head messageLen ++ load messageBuf 0 messageLen.toNat).take 1004 ∧
      s.messageControl sessionID m.packet time = ((s.touch c time).setMessageBuf messageBuf,
        .getData (min messageLen.toNat text.length : ℕ) ::
          (s.touch c time).sendPacketAround (s.characters c).sectorX.toInt
            (s.characters c).sectorY.toInt packet ++ [.freePacket]) := by
  rw [Delivered.Says, List.append_assoc, List.append_assoc] at hm
  obtain ⟨p, hp, hsize, hcontrol⟩ := messageControl_of_type time hc hm
  obtain ⟨hreadAccount, hp⟩ := extractInt64_of_holds hp
  obtain ⟨hreadLen, hp⟩ := extractWord_of_holds hp
  obtain ⟨hget, hbytes⟩ := hp.getData_take messageLen.toNat
  have haccount : ((s.touch c time).characters c).accountNo = (extractInt64 p).1 := by
    rw [characters_touch, hreadAccount, ← haccount]
  obtain ⟨packet, hdata, hchat⟩ := chatMessage_eq_heard haccount (hreadLen.symm ▸ hlen) hsize
  simp only [hreadLen, afterWord, hget, hbytes, characters_touch] at hdata hchat
  refine ⟨packet, hdata, ?_⟩
  rw [hcontrol]
  simp only [dispatch_message, hchat]
  rw [if_neg]
  · rfl
  · rw [List.mem_cons, not_or]
    exact ⟨nofun, crash_notMem_sendPacketAround _ _ _⟩

/-! ## One job -/

theorem sendPacketAround_alike {packet packet' : Packet} (sectorX sectorY : ℤ)
    (head : packet.data.take 92 = packet'.data.take 92)
    (length : packet.data.length = packet'.data.length) :
    List.Forall₂ Event.Alike (s.sendPacketAround sectorX sectorY packet)
      ((s.setMessageBuf messageBuf).sendPacketAround sectorX sectorY packet') := by
  rw [sendPacketAround_eq, sendPacketAround_eq, List.forall₂_map_left_iff,
    List.forall₂_map_right_iff]
  exact List.forall₂_same.2 fun _ _ => .sendPacket _ head length

/-- Chat messages that announce the same and have as much of it, with whatever in `MessageBuf`. -/
theorem chatMessage_alike (s : Server) (c : ℕ) (messageBuf : ℤ → UInt8) {p' : Packet}
    (haccount : (extractInt64 p').1 = (extractInt64 p).1)
    (hlen : (extractWord (extractInt64 p').2).1 = (extractWord (extractInt64 p).2).1)
    (hget : ∀ n : ℕ, ((afterWord p').getData n).1 = ((afterWord p).getData n).1)
    (hsize : p.bufferSize = 1024) (hsize' : p'.bufferSize = 1024) :
    ∃ messageBuf', ((s.setMessageBuf messageBuf).chatMessage c p').1 =
        (s.chatMessage c p).1.setMessageBuf messageBuf' ∧
      List.Forall₂ Event.Alike (s.chatMessage c p).2
        ((s.setMessageBuf messageBuf).chatMessage c p').2 := by
  by_cases hmatch : (s.characters c).accountNo = (extractInt64 p).1
  · have hmatch' : ((s.setMessageBuf messageBuf).characters c).accountNo = (extractInt64 p').1 :=
      hmatch.trans haccount.symm
    by_cases hshort : (extractWord (extractInt64 p).2).1.toNat < kMessageBufsize
    · obtain ⟨packet, hdata, hchat⟩ := chatMessage_eq_heard hmatch hshort hsize
      have hshort' : (extractWord (extractInt64 p').2).1.toNat < kMessageBufsize := by rwa [hlen]
      obtain ⟨packet', hdata', hchat'⟩ := chatMessage_eq_heard hmatch' hshort' hsize'
      rw [hchat, hchat']
      refine ⟨_, rfl, .cons ?_ (sendPacketAround_alike _ _ ?_ ?_)⟩
      · rw [hlen, hget]
        exact .same _
      · rw [hdata, hdata', hlen, List.take_take, List.take_take, List.take_append_of_le_length,
          List.take_append_of_le_length]
        · rfl
        · exact (length_head ..).ge
        · exact (length_head ..).ge
      · rw [hdata, hdata', hlen]
        simp only [List.length_take, List.length_append, length_head, length_load]
    · have hlong' : ¬(extractWord (extractInt64 p').2).1.toNat < kMessageBufsize := by rwa [hlen]
      rw [chatMessage_eq_crash hmatch hshort, chatMessage_eq_crash hmatch' hlong']
      exact ⟨messageBuf, rfl, alike_refl _⟩
  · have hmatch' : ((s.setMessageBuf messageBuf).characters c).accountNo ≠ (extractInt64 p').1 :=
      fun h => hmatch (h.trans haccount)
    rw [chatMessage_eq_kill hmatch, chatMessage_eq_kill hmatch']
    exact ⟨messageBuf, rfl, alike_refl _⟩

theorem dispatch_alike (s : Server) (sessionID : UInt64) (c : ℕ) (messageBuf : ℤ → UInt8)
    (type : BitVec 16) (hsize : p.bufferSize = 1024) :
    ∃ messageBuf', ((s.setMessageBuf messageBuf).dispatch sessionID c type p).1 =
        (s.dispatch sessionID c type p).1.setMessageBuf messageBuf' ∧
      List.Forall₂ Event.Alike (s.dispatch sessionID c type p).2
        ((s.setMessageBuf messageBuf).dispatch sessionID c type p).2 := by
  unfold Server.dispatch
  rw [login_setMessageBuf, sectorMove_setMessageBuf]
  split_ifs
  case pos => exact ⟨_, rfl, alike_refl _⟩
  case pos => exact ⟨_, rfl, alike_refl _⟩
  case pos => exact ⟨_, rfl, alike_refl _⟩
  case pos => exact chatMessage_alike s c messageBuf rfl rfl (fun _ => rfl) hsize hsize
  case pos => exact ⟨_, rfl, alike_refl _⟩
  case neg => exact ⟨_, rfl, alike_refl _⟩

/-- What `MessageControl` does behind the `switch`. -/
theorem finished_alike {events events' : List Event} (h : List.Forall₂ Event.Alike events events') :
    List.Forall₂ Event.Alike (if .crash ∈ events then events else events ++ [.freePacket])
      (if .crash ∈ events' then events' else events' ++ [.freePacket]) := by
  by_cases hcrash : Event.crash ∈ events
  · rwa [if_pos hcrash, if_pos ((crash_mem_iff h).1 hcrash)]
  · rw [if_neg hcrash, if_neg (mt (crash_mem_iff h).2 hcrash)]
    exact List.rel_append h (alike_refl _)

theorem messageControl_alike (s : Server) (sessionID : UInt64) (time : UInt32)
    (messageBuf : ℤ → UInt8) (hsize : p.bufferSize = 1024) :
    ∃ messageBuf', ((s.setMessageBuf messageBuf).messageControl sessionID p time).1 =
        (s.messageControl sessionID p time).1.setMessageBuf messageBuf' ∧
      List.Forall₂ Event.Alike (s.messageControl sessionID p time).2
        ((s.setMessageBuf messageBuf).messageControl sessionID p time).2 := by
  have hfind :
      (s.setMessageBuf messageBuf).findCharacter sessionID = s.findCharacter sessionID := rfl
  unfold Server.messageControl
  rw [hfind]
  cases s.findCharacter sessionID with
  | none => exact ⟨_, rfl, alike_refl _⟩
  | some c =>
    obtain ⟨messageBuf', hserver, hevents⟩ := dispatch_alike (s.touch c time) sessionID c
      messageBuf (extractWord p).1 (show (extractWord p).2.bufferSize = 1024 from hsize)
    exact ⟨messageBuf', hserver, finished_alike hevents⟩

/-- Another text of the same length. -/
theorem messageControl_alike_of_says (s : Server) (sessionID : UInt64) (time : UInt32)
    (messageBuf : ℤ → UInt8) {m' : Delivered} {text' : List UInt8}
    (hm : m.Says accountNo messageLen text) (hm' : m'.Says accountNo messageLen text')
    (hlength : text.length = text'.length) :
    ∃ messageBuf', ((s.setMessageBuf messageBuf).messageControl sessionID m'.packet time).1 =
        (s.messageControl sessionID m.packet time).1.setMessageBuf messageBuf' ∧
      List.Forall₂ Event.Alike (s.messageControl sessionID m.packet time).2
        ((s.setMessageBuf messageBuf).messageControl sessionID m'.packet time).2 := by
  cases hc : s.findCharacter sessionID with
  | none =>
    have hc' : (s.setMessageBuf messageBuf).findCharacter sessionID = none := hc
    simp only [Server.messageControl, hc, hc']
    exact ⟨_, rfl, alike_refl _⟩
  | some c =>
    have hc' : (s.setMessageBuf messageBuf).findCharacter sessionID = some c := hc
    rw [Delivered.Says, List.append_assoc, List.append_assoc] at hm hm'
    obtain ⟨p, hp, hsize, hcontrol⟩ := messageControl_of_type time hc hm
    obtain ⟨p', hp', hsize', hcontrol'⟩ := messageControl_of_type time hc' hm'
    obtain ⟨haccount, hp⟩ := extractInt64_of_holds hp
    obtain ⟨haccount', hp'⟩ := extractInt64_of_holds hp'
    obtain ⟨hlen, hp⟩ := extractWord_of_holds hp
    obtain ⟨hlen', hp'⟩ := extractWord_of_holds hp'
    obtain ⟨messageBuf', hserver, hevents⟩ := chatMessage_alike (s.touch c time) c
      messageBuf (haccount'.trans haccount.symm) (hlen'.trans hlen.symm)
      (fun n => by
        rw [afterWord, afterWord, (hp'.getData_take n).1, (hp.getData_take n).1, hlength])
      hsize hsize'
    rw [hcontrol, hcontrol', touch_setMessageBuf]
    simp only [dispatch_message]
    exact ⟨messageBuf', hserver, finished_alike hevents⟩

/-- **One job.** -/
theorem update_alike (messageBuf : ℤ → UInt8) {job job' : Job} (h : job.Alike job') {t : Server}
    {events : List Event} (hu : s.update job = some (t, events)) : ∃ messageBuf' events',
      (s.setMessageBuf messageBuf).update job' = some (t.setMessageBuf messageBuf', events') ∧
        List.Forall₂ Event.Alike events events' := by
  cases h with
  | same =>
    cases job with
    | join sessionID c time =>
      obtain ⟨t', ht', heq⟩ := Option.map_eq_some_iff.1 hu
      obtain ⟨rfl, rfl⟩ := Prod.mk.inj heq
      refine ⟨messageBuf, [], ?_, .nil⟩
      rw [Server.update, createCharacter_setMessageBuf, ht']
      rfl
    | message sessionID m time =>
      obtain ⟨rfl, rfl⟩ := Prod.mk.inj (Option.some.inj hu)
      obtain ⟨messageBuf', hserver, hevents⟩ := messageControl_alike (p := m.packet) s sessionID
        time messageBuf m.pooled.size
      exact ⟨messageBuf', _, congrArg some (Prod.ext hserver rfl), hevents⟩
    | leave sessionID =>
      obtain ⟨rfl, rfl⟩ := Prod.mk.inj (Option.some.inj hu)
      exact ⟨messageBuf, _, congrArg some leaveCharacter_setMessageBuf, alike_refl _⟩
    | heartbeat time =>
      obtain ⟨rfl, rfl⟩ := Prod.mk.inj (Option.some.inj hu)
      exact ⟨messageBuf, _, rfl, alike_refl _⟩
  | message sessionID time hm hm' hlength =>
    obtain ⟨rfl, rfl⟩ := Prod.mk.inj (Option.some.inj hu)
    obtain ⟨messageBuf', hserver, hevents⟩ := messageControl_alike_of_says s sessionID time
      messageBuf hm hm' hlength
    exact ⟨messageBuf', _, congrArg some (Prod.ext hserver rfl), hevents⟩

/-! ## Runs -/

theorem Job.Alike.inOrder_eq {job job' : Job} (h : job.Alike job') (phase : UInt64 → Phase) :
    job'.inOrder phase = job.inOrder phase := by
  cases h <;> rfl

theorem Job.Alike.advance_eq {job job' : Job} (h : job.Alike job') (phase : UInt64 → Phase) :
    job'.advance phase = job.advance phase := by
  cases h <;> rfl

theorem State.Alike.refl (s : State) : s.Alike s :=
  ⟨⟨s.server.messageBuf, rfl⟩, rfl, alike_refl _⟩

theorem step_alike {s s' t : State} {job job' : Job} (hs : s.Alike s') (h : job.Alike job')
    (hst : jobs.step s job = some t) : ∃ t', jobs.step s' job' = some t' ∧ t.Alike t' := by
  obtain ⟨hcrash, horder, server, events, hu, rfl⟩ := step_eq_some.1 hst
  obtain ⟨messageBuf, hserver⟩ := hs.server
  obtain ⟨messageBuf', events', hu', hevents⟩ := update_alike messageBuf h hu
  rw [← hserver] at hu'
  rw [← hs.phase, ← h.inOrder_eq] at horder
  exact ⟨_, step_eq_some.2 ⟨mt (crash_mem_iff hs.events).2 hcrash, horder, _, _, hu', rfl⟩,
    ⟨_, rfl⟩, by rw [h.advance_eq, hs.phase], List.rel_append hs.events hevents⟩

/-- **What is said shows only in what is sent on.** Where different things of the same lengths are
said in two runs, the jobs find and leave the same, but for what `MessageBuf` holds, and do the
same, but for the text in the packets that are sent on. -/
theorem run_alike {s s' t : State} {these those : List Job} (hs : s.Alike s')
    (h : List.Forall₂ Job.Alike these those) (hr : jobs.run (fun _ _ => true) s these = some t) :
    ∃ t', jobs.run (fun _ _ => true) s' those = some t' ∧ t.Alike t' :=
  Lts.exists_run_of_forall₂ (fun _ _ _ _ _ hs h hst => step_alike hs h hst) h hs hr

/-- Another text than that of `say`. -/
def sayOther : Delivered := .ofList [5, 0, 0, 0, 0, 0, 0, 0, 0, 0, 4, 0, 72, 0, 111, 0] (by decide)

theorem says_say : say.Says 0 4 [72, 0, 105, 0] := by
  rw [Delivered.Says]
  decide

theorem says_sayOther : sayOther.Says 0 4 [72, 0, 111, 0] := by
  rw [Delivered.Says]
  decide

theorem run_alike_say : ∃ t t',
    jobs.run (fun _ _ => true) .empty [.join 1 0 0, .message 1 (moveTo 3 4) 0, .message 1 say 0] =
      some t ∧
    jobs.run (fun _ _ => true) .empty
      [.join 1 0 0, .message 1 (moveTo 3 4) 0, .message 1 sayOther 0] = some t' ∧ t.Alike t' := by
  have hany : (jobs.run (fun _ _ => true) .empty
      [.join 1 0 0, .message 1 (moveTo 3 4) 0, .message 1 say 0]).any (fun _ => true) = true := by
    decide
  obtain ⟨t, ht, -⟩ := (Option.any_eq_true _ _).1 hany
  obtain ⟨t', ht', h⟩ := run_alike (.refl .empty) (.cons (.same _) (.cons (.same _)
    (.cons (.message 1 0 says_say says_sayOther rfl) .nil))) ht
  exact ⟨t, t', ht, ht', h⟩

/-! ## What is left in the buffer -/

/-- What a message passes on: 912 bytes fit into a packet behind the head. -/
def passedOn (messageBuf : ℤ → UInt8) (messageLen : ℕ) (text : List UInt8) : List UInt8 :=
  load (heard messageBuf messageLen (text.take messageLen)) 0 (min messageLen 912)

theorem take_head_append (character : Character) (messageBuf : ℤ → UInt8) :
    (character.head messageLen ++ load (heard messageBuf messageLen.toNat
        (text.take messageLen.toNat)) 0 messageLen.toNat).take 1004 =
      character.head messageLen ++ passedOn messageBuf messageLen.toNat text := by
  rw [List.take_append, length_head, take_load_min, List.take_of_length_le]
  · rfl
  · rw [length_head]
    decide

/-- With as much text as is announced, nothing shows of what was there. -/
theorem passedOn_eq {messageBuf messageBuf' : ℤ → UInt8} {n : ℕ}
    (h : min (2 * (n / 2)) 912 ≤ text.length) :
    passedOn messageBuf n text = passedOn messageBuf' n text := by
  refine load_congr fun x hx hx' => ?_
  rw [heard, heard]
  rcases lt_or_ge x (2 * ((n : ℤ) / 2)) with hlt | hge
  · rw [store_of_lt hlt, store_of_lt hlt]
    refine store_congr hx ?_
    rw [List.length_take]
    omega
  · exact store_congr hge (by rw [List.length_cons, List.length_singleton]; omega)

/-- With less, there is a byte of what was there. -/
theorem getD_passedOn {n : ℕ} (h : text.length < min (2 * (n / 2)) 912) :
    (passedOn messageBuf n text).getD text.length 0 = messageBuf text.length := by
  rw [passedOn, getD_load _ _ (by omega), heard, store_of_lt (by omega), store_of_ge, zero_add]
  rw [List.length_take]
  omega

theorem heard_replicate (messageBuf : ℤ → UInt8) (byte : UInt8) {k : ℕ} (h : k < 912) :
    heard messageBuf (912#16).toNat (List.replicate 912 byte) k = byte := by
  have hlen : (912#16).toNat = 912 := rfl
  rw [heard, hlen, store_of_lt (by omega)]
  simp only [store]
  rw [if_pos (Int.natCast_nonneg k), sub_zero, Int.toNat_natCast, List.getElem?_replicate, if_pos h,
    Option.getD_some]

/-! ## What a message does with it -/

theorem sendPacketAround_congr {packet packet' : Packet} (sectorX sectorY : ℤ)
    (h : packet.data = packet'.data) : s.sendPacketAround sectorX sectorY packet =
      (s.setMessageBuf messageBuf).sendPacketAround sectorX sectorY packet' := by
  rw [sendPacketAround_eq, sendPacketAround_eq, h]
  rfl

theorem data_eq_of_sendPacketAround {packet packet' : Packet} {sectorX sectorY : ℤ}
    (hc : c ∈ (visited (sectorY, sectorX)).flatMap s.sectorList)
    (h : s.sendPacketAround sectorX sectorY packet =
      (s.setMessageBuf messageBuf).sendPacketAround sectorX sectorY packet') :
    packet.data = packet'.data := by
  rw [sendPacketAround_eq, sendPacketAround_eq] at h
  exact (Event.sendPacket.inj (List.map_inj_left.1 h c hc)).2

theorem accountNo_of_says (hm : m.Says accountNo messageLen text) :
    messageType m.packet = PacketType.csChatReqMessage.toWord ∧
      ChatServer.accountNo m.packet = accountNo := by
  rw [Delivered.Says, List.append_assoc, List.append_assoc] at hm
  have hp := holds_packet m
  rw [hm] at hp
  obtain ⟨htype, hp⟩ := extractWord_of_holds hp
  exact ⟨htype, (extractInt64_of_holds hp).1⟩

/-- A message that has the text that it announces. -/
theorem messageControl_eq_of_le (s : Server) (sessionID : UInt64) (time : UInt32)
    (messageBuf : ℤ → UInt8) (hm : m.Says accountNo messageLen text)
    (hlen : messageLen.toNat < kMessageBufsize)
    (h : min (2 * (messageLen.toNat / 2)) 912 ≤ text.length) :
    (s.messageControl sessionID m.packet time).2 =
      ((s.setMessageBuf messageBuf).messageControl sessionID m.packet time).2 := by
  cases hc : s.findCharacter sessionID with
  | none =>
    have hc' : (s.setMessageBuf messageBuf).findCharacter sessionID = none := hc
    simp only [Server.messageControl, hc, hc']
  | some c =>
    have hc' : (s.setMessageBuf messageBuf).findCharacter sessionID = some c := hc
    obtain ⟨htype, hread⟩ := accountNo_of_says hm
    by_cases haccount : (s.characters c).accountNo = accountNo
    · obtain ⟨packet, hdata, hcontrol⟩ := messageControl_eq_heard time hc hm haccount hlen
      obtain ⟨packet', hdata', hcontrol'⟩ := messageControl_eq_heard time hc' hm haccount hlen
      rw [take_head_append, passedOn_eq h, ← take_head_append] at hdata
      rw [hcontrol, hcontrol']
      exact congrArg (fun events => _ :: events ++ _)
        (sendPacketAround_congr _ _ (hdata.trans hdata'.symm))
    · rw [messageControl_events hc, messageControl_events hc', touch_setMessageBuf, htype,
        dispatch_message, dispatch_message]
      have hne : ((s.touch c time).characters c).accountNo ≠
          (extractInt64 (extractWord m.packet).2).1 := by
        rw [characters_touch]
        exact fun heq => haccount (heq.trans hread)
      have hne' : (((s.touch c time).setMessageBuf messageBuf).characters c).accountNo ≠
          (extractInt64 (extractWord m.packet).2).1 := hne
      rw [chatMessage_eq_kill hne, chatMessage_eq_kill hne']
      rfl

/-- What is sent on shows it, if the sender is listed near itself. -/
theorem passedOn_eq_of_messageControl_eq (time : UInt32)
    (hlisted : c ∈ (visited (s.characters c).sector).flatMap s.sectorList)
    (hc : s.findCharacter sessionID = some c)
    (hm : m.Says (s.characters c).accountNo messageLen text)
    (hlen : messageLen.toNat < kMessageBufsize)
    (h : (s.messageControl sessionID m.packet time).2 =
      ((s.setMessageBuf messageBuf).messageControl sessionID m.packet time).2) :
    passedOn s.messageBuf messageLen.toNat text = passedOn messageBuf messageLen.toNat text := by
  have hc' : (s.setMessageBuf messageBuf).findCharacter sessionID = some c := hc
  obtain ⟨packet, hdata, hcontrol⟩ := messageControl_eq_heard time hc hm rfl hlen
  obtain ⟨packet', hdata', hcontrol'⟩ := messageControl_eq_heard time hc' hm rfl hlen
  rw [hcontrol, hcontrol'] at h
  have haround := data_eq_of_sendPacketAround (s := s.touch c time) hlisted
    (List.append_cancel_right (List.cons.inj h).2)
  rw [hdata, hdata', take_head_append, take_head_append] at haround
  exact List.append_cancel_left haround

theorem listed_of_entered (hs : s.Consistent) (hc : s.findCharacter sessionID = some c)
    (h : (s.characters c).Entered) :
    c ∈ (visited (s.characters c).sector).flatMap s.sectorList := by
  have hinUse := hs.inUse_of_findCharacter hc
  have hnear : Near (s.characters c).sector (s.characters c).sector := by
    rw [Near, sub_self, sub_self, abs_zero]
    decide
  exact List.mem_flatMap.2 ⟨_, mem_visited.2 ⟨hnear, hs.inArray c hinUse h⟩,
    hs.listed.mem_iff.2 (Server.place_eq_some.2 ⟨hinUse, h, rfl⟩)⟩

/-- Whatever is said before the job, in texts of the same lengths: the job does the same. -/
def State.Forgets (s : State) (job : Job) : Prop :=
  ∀ earlier earlier' t t', List.Forall₂ Job.Alike earlier earlier' →
    jobs.run (fun _ _ => true) s earlier = some t →
    jobs.run (fun _ _ => true) s earlier' = some t' →
      (t.server.update job).map Prod.snd = (t'.server.update job).map Prod.snd

theorem length_filling (accountNo : BitVec 64) (byte : UInt8) :
    (PacketType.csChatReqMessage.bytes ++ toBytes 8 accountNo ++ toBytes 2 (912#16) ++
      List.replicate 912 byte).length ≤ 1004 := by
  simp only [PacketType.bytes, List.length_append, length_toBytes, List.length_replicate]
  decide

/-- A message that fills as much of `MessageBuf` as a message may pass on. -/
def filling (accountNo : BitVec 64) (byte : UInt8) : Delivered :=
  .ofList _ (length_filling accountNo byte)

theorem says_filling (accountNo : BitVec 64) (byte : UInt8) :
    (filling accountNo byte).Says accountNo (912#16) (List.replicate 912 byte) := rfl

/-- The character says the same byte 912 times. -/
theorem run_filling {s : State} (time : UInt32) (byte : UInt8) (h : jobs.Reachable s)
    (hcrash : .crash ∉ s.events) (hc : s.server.findCharacter sessionID = some c) :
    ∃ t, jobs.run (fun _ _ => true) s
        [.message sessionID (filling (s.server.characters c).accountNo byte) time] = some t ∧
      t.server = (s.server.touch c time).setMessageBuf
        (heard s.server.messageBuf (912#16).toNat (List.replicate 912 byte)) := by
  have hjoined : s.phase sessionID = .joined := by
    rw [← (consistent_of_reachable h).map, ← AList.lookup_isSome]
    exact Option.isSome_of_eq_some hc
  obtain ⟨packet, -, hcontrol⟩ := messageControl_eq_heard time hc
    (says_filling (s.server.characters c).accountNo byte) rfl (by decide)
  rw [List.take_of_length_le (by rw [List.length_replicate]; decide)] at hcontrol
  obtain ⟨t, hstep, hserver⟩ : ∃ t, jobs.step s (.message sessionID
      (filling (s.server.characters c).accountNo byte) time) = some t ∧
        t.server = (s.server.touch c time).setMessageBuf _ :=
    ⟨_, step_eq_some.2 ⟨hcrash, decide_eq_true hjoined, _, _, congrArg some hcontrol, rfl⟩, rfl⟩
  refine ⟨t, ?_, hserver⟩
  rw [Lts.run, if_pos rfl, hstep]
  rfl

/-- **The server forgets what has been said exactly if a message has the text that it announces**,
as far as that fits into a packet: with less text, and an odd byte at the end does not count, what
those before it have said is sent on. -/
theorem forgets_iff {s : State} (h : jobs.Reachable s) (hcrash : .crash ∉ s.events)
    (hc : s.server.findCharacter sessionID = some c) (hentered : (s.server.characters c).Entered)
    (hm : m.Says (s.server.characters c).accountNo messageLen text)
    (hlen : messageLen.toNat < kMessageBufsize) :
    s.Forgets (.message sessionID m time) ↔ min (2 * (messageLen.toNat / 2)) 912 ≤ text.length := by
  constructor
  · intro hforgets
    by_contra hless
    rw [not_le] at hless
    obtain ⟨t, ht, hserver⟩ := run_filling time 0 h hcrash hc
    obtain ⟨t', ht', hserver'⟩ := run_filling time 1 h hcrash hc
    have halike := Job.Alike.message sessionID time (says_filling _ 0)
      (says_filling (s.server.characters c).accountNo 1)
      (by rw [List.length_replicate, List.length_replicate])
    have hsame := hforgets _ _ t t' (.cons halike .nil) ht ht'
    rw [hserver, hserver'] at hsame
    set filled := heard s.server.messageBuf (912#16).toNat (List.replicate 912 0) with hfilled
    have hcharacter : ((s.server.touch c time).setMessageBuf filled).characters c =
        { s.server.characters c with lastRecvTime := time } := characters_touch
    have hlisted := listed_of_entered (consistent_of_reachable h).server hc hentered
    have hpassed := passedOn_eq_of_messageControl_eq
      (s := (s.server.touch c time).setMessageBuf filled) time (by rw [hcharacter]; exact hlisted)
      hc (by rw [hcharacter]; exact hm) hlen (Option.some.inj hsame)
    have hbyte := congrArg (fun bytes => bytes.getD text.length 0) hpassed
    simp only [getD_passedOn hless, Server.setMessageBuf_messageBuf] at hbyte
    rw [hfilled, heard_replicate _ _ (by omega), heard_replicate _ _ (by omega)] at hbyte
    exact absurd hbyte (by decide)
  · intro hle earlier earlier' t t' halike ht ht'
    obtain ⟨t'', ht'', hst⟩ := Lts.exists_run_of_forall₂
      (fun _ _ _ _ _ hs h hst => step_alike hs h hst) halike
      (State.Alike.refl s) ht
    obtain rfl := Option.some.inj (ht'.symm.trans ht'')
    obtain ⟨messageBuf, hserver⟩ := hst.server
    rw [hserver]
    exact congrArg some (messageControl_eq_of_le t.server sessionID time messageBuf hm hlen hle)

/-- A message that announces ten bytes and has none. -/
def saySilence : Delivered := .ofList [5, 0, 0, 0, 0, 0, 0, 0, 0, 0, 10, 0] (by decide)

theorem says_saySilence : saySilence.Says 0 10 [] := by
  rw [Delivered.Says]
  decide

theorem forgets_iff_say : ∃ s, jobs.Reachable s ∧ s.Forgets (.message 1 say 0) ∧
    ¬s.Forgets (.message 1 saySilence 0) := by
  obtain ⟨s, hs, hp⟩ := Lts.exists_reachable_of_run init_empty
    [.join 1 0 0, .message 1 (moveTo 3 4) 0]
    (p := fun s => (.crash ∉ s.events ∧ s.server.findCharacter 1 = some 0) ∧
      (s.server.characters 0).Entered ∧ (s.server.characters 0).accountNo = 0) (by decide)
  obtain ⟨⟨hcrash, hc⟩, hentered, haccount⟩ := of_decide_eq_true hp
  have hforgets : s.Forgets (.message 1 say 0) :=
    (forgets_iff hs hcrash hc hentered (haccount ▸ says_say) (by decide)).2 (by decide)
  refine ⟨s, hs, hforgets, fun h => ?_⟩
  have hle := (forgets_iff hs hcrash hc hentered (haccount ▸ says_saySilence) (by decide)).1 h
  exact absurd hle (by decide)

end NetworkLibrary.ChatServer
