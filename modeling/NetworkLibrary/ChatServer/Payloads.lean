import NetworkLibrary.ChatServer.Around

/-!
# What payloads do to the job loop

A login of a character that has entered a sector, and a chat message of 1000 bytes or more, end the
process. A login of fewer than 10 bytes and a chat message of fewer than 12 leave `Front` behind
`Rear`, so that `GetData` copies a negative number of bytes. Nothing else does either
(`safe_iff_acceptable`): whether a run is safe is decided by its messages one after the other
(`safe_events_iff`).
-/

namespace NetworkLibrary.ChatServer

open Foundations

/-- `Crash` is not reached and `GetData` does not copy a negative number of bytes. -/
def Event.harmless : Event → Bool
  | .crash => false
  | .getData size => 0 ≤ size
  | .sendPacket .. | .killSession _ | .freePacket => true

def Safe (events : List Event) : Prop := ∀ event ∈ events, event.harmless = true

instance (events : List Event) : Decidable (Safe events) :=
  inferInstanceAs (Decidable (∀ event ∈ events, event.harmless = true))

/-- A login comes before the character has entered a sector, and has the account behind its type. A
chat message of the character's account has the length of the text, which is below 1000. -/
def Acceptable (character : Character) (m : Delivered) : Prop :=
  (messageType m.packet = PacketType.csChatReqLogin.toWord →
    character.sectorX.toInt = -1 ∧ 10 ≤ m.payload.length) ∧
  (messageType m.packet = PacketType.csChatReqMessage.toWord →
    accountNo m.packet = character.accountNo →
      (messageLen m.packet).toNat < kMessageBufsize ∧ 12 ≤ m.payload.length)

instance (character : Character) (m : Delivered) : Decidable (Acceptable character m) :=
  inferInstanceAs (Decidable (_ ∧ _))

/-- The job is no message, or one that is acceptable in the state. -/
def meets (s : State) : Job → Bool
  | .message sessionID m _ =>
    (s.server.findCharacter sessionID).all fun c => Acceptable (s.server.characters c) m
  | _ => true

variable {s : Server} {sessionID : UInt64} {c : ℕ} {m : Delivered} {time : UInt32}
variable {events events' : List Event}

theorem safe_append : Safe (events ++ events') ↔ Safe events ∧ Safe events' :=
  List.forall_mem_append

theorem safe_cons {event : Event} : Safe (event :: events) ↔ event.harmless = true ∧ Safe events :=
  List.forall_mem_cons

theorem safe_nil : Safe [] := fun _ h => nomatch h

theorem not_safe_of_crash (h : .crash ∈ events) : ¬Safe events :=
  fun hsafe => Bool.false_ne_true (hsafe _ h)

theorem safe_sendPacketAround (sectorX sectorY : ℤ) (packet : Packet) :
    Safe (s.sendPacketAround sectorX sectorY packet) := by
  intro event h
  obtain ⟨_, _, rfl⟩ := eq_sendPacket_of_mem h
  rfl

/-! ## Messages -/

theorem front_packet (m : Delivered) : m.packet.front = 20 := rfl

theorem rear_packet (m : Delivered) : m.packet.rear = 20 + m.payload.length := by
  have hsize := m.pooled.size
  have hfits := m.fits
  rw [Delivered.packet, Packet.moveWritePos_of_le]
  · rfl
  · show Packet.kHeaderDefault + (m.payload.length : ℤ) ≤ m.pooled.bufferSize
    rw [hsize, Packet.kHeaderDefault, Packet.kBufferDefault]
    omega

/-- `GetData` copies a negative number of bytes exactly if `Front` is behind `Rear`. -/
theorem getData_nonneg {p : Packet} {size : ℤ} (h : 0 ≤ size) :
    0 ≤ (p.getData size).1 ↔ p.front ≤ p.rear := by
  simp only [Packet.getData]
  split <;> omega

theorem front_le_rear_getData (p : Packet) (size : ℤ) :
    (p.getData size).2.2.front ≤ (p.getData size).2.2.rear := by
  simp only [Packet.getData]
  split <;> omega

theorem safe_login : Safe (s.login sessionID c (extractWord m.packet).2).2 ↔
    (s.characters c).sectorX.toInt = -1 ∧ 10 ≤ m.payload.length := by
  by_cases hx : (s.characters c).sectorX.toInt = -1
  · obtain ⟨data, hevents⟩ := login_of_not_entered sessionID (extractWord m.packet).2 hx
    have hid : 0 ≤ ((extractInt64 (extractWord m.packet).2).2.getDataW 20).1 ↔
        10 ≤ m.payload.length := by
      rw [Packet.getDataW, getData_nonneg (by decide)]
      show m.packet.front + 2 + 8 ≤ m.packet.rear ↔ _
      rw [front_packet, rear_packet]
      omega
    have hnickname :
        0 ≤ (((extractInt64 (extractWord m.packet).2).2.getDataW 20).2.2.getDataW 20).1 :=
      (getData_nonneg (by decide)).2 (front_le_rear_getData ..)
    rw [hevents, safe_cons, safe_cons, safe_cons, Event.harmless, decide_eq_true_eq, hid,
      Event.harmless, decide_eq_true_eq]
    exact ⟨fun h => ⟨hx, h.1⟩, fun h => ⟨h.2, hnickname, rfl, safe_nil⟩⟩
  · rw [login_of_entered hx]
    exact iff_of_false (not_safe_of_crash (List.mem_singleton_self _)) fun h => hx h.1

theorem safe_chatMessage : Safe (s.chatMessage c (extractWord m.packet).2).2 ↔
    (accountNo m.packet = (s.characters c).accountNo →
      (messageLen m.packet).toNat < kMessageBufsize ∧ 12 ≤ m.payload.length) := by
  by_cases haccount : (s.characters c).accountNo = accountNo m.packet
  · rw [forall_prop_of_true haccount.symm]
    by_cases hlen : (messageLen m.packet).toNat < kMessageBufsize
    · obtain ⟨packet', hevents⟩ := chatMessage_of_short haccount hlen
      have hsize : 0 ≤ ((afterWord (extractWord m.packet).2).getData
          (messageLen m.packet).toNat).1 ↔ 12 ≤ m.payload.length := by
        rw [getData_nonneg (Int.natCast_nonneg _)]
        show m.packet.front + 2 + 8 + 2 ≤ m.packet.rear ↔ _
        rw [front_packet, rear_packet]
        omega
      rw [hevents, safe_cons, Event.harmless, decide_eq_true_eq]
      exact ⟨fun h => ⟨hlen, hsize.1 h.1⟩, fun h => ⟨hsize.2 h.2, safe_sendPacketAround _ _ packet'⟩⟩
    · rw [chatMessage_of_long haccount (not_lt.1 hlen)]
      exact iff_of_false (not_safe_of_crash (List.mem_singleton_self _)) fun h => hlen h.1
  · rw [chatMessage_of_account_ne haccount]
    exact iff_of_true (safe_cons.2 ⟨rfl, safe_nil⟩) fun h => absurd h.symm haccount

theorem safe_sectorMove (packet : Packet) : Safe (s.sectorMove sessionID c packet).2 := by
  unfold Server.sectorMove
  dsimp only
  split_ifs <;> exact safe_cons.2 ⟨rfl, safe_nil⟩

/-- **One message.** -/
theorem safe_dispatch : Safe (s.dispatch sessionID c (messageType m.packet)
    (extractWord m.packet).2).2 ↔ Acceptable (s.characters c) m := by
  rw [Acceptable]
  by_cases hlogin : messageType m.packet = PacketType.csChatReqLogin.toWord
  · rw [hlogin, dispatch_login, safe_login]
    exact ⟨fun h => ⟨fun _ => h, fun h => absurd h (by decide)⟩, fun h => h.1 rfl⟩
  by_cases hmessage : messageType m.packet = PacketType.csChatReqMessage.toWord
  · rw [hmessage, dispatch_message, safe_chatMessage]
    exact ⟨fun h => ⟨fun h => absurd h (by decide), fun _ => h⟩, fun h => h.2 rfl⟩
  refine iff_of_true ?_ ⟨fun h => absurd h hlogin, fun h => absurd h hmessage⟩
  unfold Server.dispatch
  rw [if_neg hlogin, if_neg hmessage]
  split_ifs
  · exact safe_nil
  · exact safe_sectorMove _
  · exact safe_nil
  · exact safe_cons.2 ⟨rfl, safe_nil⟩

theorem acceptable_touch (time : UInt32) : Acceptable ((s.touch c time).characters c) m ↔
    Acceptable (s.characters c) m := by
  rw [characters_touch, Acceptable, Acceptable]

theorem safe_messageControl (hc : s.findCharacter sessionID = some c) :
    Safe (s.messageControl sessionID m.packet time).2 ↔ Acceptable (s.characters c) m := by
  rw [messageControl_events hc, ← acceptable_touch time, ← safe_dispatch]
  dsimp only
  split_ifs with hcrash
  · rfl
  · rw [safe_append]
    exact and_iff_left (safe_cons.2 ⟨rfl, safe_nil⟩)

/-! ## Runs -/

theorem safe_checkHeartBeat : Safe (s.checkHeartBeat time) := by
  intro event h
  obtain ⟨x, -, hx⟩ := List.mem_filterMap.1 h
  dsimp only at hx
  split_ifs at hx
  obtain rfl := Option.some.inj hx
  rfl

/-- **One job** is safe exactly if it is no message or one that is acceptable. -/
theorem safe_step {s t : State} {job : Job} (hs : jobs.Reachable s) (h : jobs.step s job = some t) :
    Safe t.events ↔ Safe s.events ∧ meets s job = true := by
  obtain ⟨-, horder, server, events, hupdate, rfl⟩ := step_eq_some.1 h
  have hmap := (consistent_of_reachable hs).map
  rw [safe_append]
  refine and_congr_right fun _ => ?_
  cases job with
  | join sessionID c time =>
    obtain ⟨u, -, hpair⟩ := Option.map_eq_some_iff.1 hupdate
    obtain ⟨-, rfl⟩ := Prod.mk.inj hpair
    exact iff_of_true safe_nil rfl
  | message sessionID m time =>
    obtain ⟨c, hc⟩ := Option.isSome_iff_exists.1
      (AList.lookup_isSome.2 ((hmap sessionID).2 (of_decide_eq_true horder)))
    obtain rfl : (s.server.messageControl sessionID m.packet time).2 = events :=
      congrArg Prod.snd (Option.some.inj hupdate)
    rw [safe_messageControl hc, meets, Server.findCharacter, hc, Option.all_some, decide_eq_true_eq]
  | leave sessionID =>
    obtain ⟨c, hc⟩ := Option.isSome_iff_exists.1
      (AList.lookup_isSome.2 ((hmap sessionID).2 (of_decide_eq_true horder)))
    obtain rfl : (s.server.leaveCharacter sessionID).2 = events :=
      congrArg Prod.snd (Option.some.inj hupdate)
    rw [Server.leaveCharacter_eq hc]
    exact iff_of_true safe_nil rfl
  | heartbeat time =>
    obtain rfl : s.server.checkHeartBeat time = events :=
      congrArg Prod.snd (Option.some.inj hupdate)
    exact iff_of_true safe_checkHeartBeat rfl

/-- **Every run.** `Crash` is not reached and `GetData` does not copy a negative number of bytes
exactly if each message is acceptable where it is handled. -/
theorem safe_events_iff {s t : State} (h : jobs.init s) (js : List Job)
    (hr : jobs.run (fun _ _ => true) s js = some t) :
    Safe t.events ↔ jobs.run meets s js = some t := by
  have hnil : s.events = [] := h.2.2.2.2
  have hiff := Lts.Reachable.run_iff (P := fun s => Safe s.events)
    (fun _ _ _ => safe_step) js (.start h) hr
  rw [hiff, hnil]
  exact and_iff_right safe_nil

/-- A client that logs in, goes to a sector and says something. -/
theorem safe_events_iff_say : ∃ t, jobs.run (fun _ _ => true) .empty
      [.join 1 0 0, .message 1 (.ofList ([1, 0] ++ .replicate 88 0) (by decide)) 0,
        .message 1 (moveTo 3 4) 0, .message 1 say 0] = some t ∧ Safe t.events ∧
    jobs.run meets .empty
      [.join 1 0 0, .message 1 (.ofList ([1, 0] ++ .replicate 88 0) (by decide)) 0,
        .message 1 (moveTo 3 4) 0, .message 1 say 0] = some t := by
  have hany : (jobs.run (fun _ _ => true) .empty
      [.join 1 0 0, .message 1 (.ofList ([1, 0] ++ .replicate 88 0) (by decide)) 0,
        .message 1 (moveTo 3 4) 0, .message 1 say 0]).any (fun t => Safe t.events) = true := by
    decide
  obtain ⟨t, ht, hsafe⟩ := (Option.any_eq_true _ _).1 hany
  have hsafe := of_decide_eq_true hsafe
  exact ⟨t, ht, hsafe, (safe_events_iff init_empty _ ht).1 hsafe⟩

/-- **A client ends the process**: with a chat message of 1000 bytes, or with a login that has
nothing behind its type. -/
theorem exists_not_safe :
    (jobs.run (fun _ _ => true) .empty
        [.join 1 0 0, .message 1 (.ofList [5, 0, 0, 0, 0, 0, 0, 0, 0, 0, 232, 3] (by decide)) 0]).any
      (fun t => .crash ∈ t.events ∧ ¬Safe t.events) = true ∧
    (jobs.run (fun _ _ => true) .empty [.join 1 0 0, .message 1 (.ofList [1, 0] (by decide)) 0]).any
      (fun t => .getData (-8) ∈ t.events ∧ ¬Safe t.events) = true := by
  decide

end NetworkLibrary.ChatServer
