import NetworkLibrary.ChatDummyClient.Dialog

/-!
# A session in its dialog

Whatever the order in which a session gets a turn, sends and receives: what it has put into
`sendBuf` is a dialog, as long as the server answers a login once (`Talks`). It becomes active with
the answer to its login, and has then asked to go to a sector already.
-/

namespace NetworkLibrary.ChatDummyClient

open Foundations ChatServer Packet ClientSession

/-- Where a session is in its dialog once it has sent `n` requests. -/
def Standing (globalIdx : Fin (2 ^ 31)) (c : ClientSession) (n : ℕ) : Prop :=
  match c.state with
  | .kConnected => n = 0 ∧ c.sendBuf = []
  | .kLoginSent => n = 1 ∧ c.sendBuf.length ≤ 159 ∧ c.accountNo = accountNoOf globalIdx
  | .kActive => 2 ≤ n ∧ c.accountNo = accountNoOf globalIdx
  | .kDisconnected => True
  | .kIdle | .kConnecting => False

/-- The session has sent the requests, and has handled the answers. -/
structure Talks (globalIdx : Fin (2 ^ 31)) (c : ClientSession) (sent received : List Message) :
    Prop where
  dialog : Dialog globalIdx sent
  standing : Standing globalIdx c sent.length
  logins : c.state ≠ .kDisconnected →
    received.countP isResLogin = if c.state = .kActive then 1 else 0
  active : c.added.active = if c.state = .kActive then 1 else 0
  totalRecv : c.added.totalRecv = received.countP isResMessage

/-- A request in a frame of the encoder. -/
def frameOf (enc : XorPacketEncoder) (b : UInt8 × Message) : List UInt8 :=
  enc.frame b.1 b.2.encoded

/-- The session has put the requests into `sendBuf`. -/
structure Puts (ctx : WorkerContext) (c d : ClientSession) (new : List (UInt8 × Message)) :
    Prop where
  sendBuf : d.sendBuf = c.sendBuf ++ (new.map (frameOf ctx.encoder)).flatten
  recvBuf : d.recvBuf = c.recvBuf

variable {globalIdx : Fin (2 ^ 31)} {ctx : WorkerContext} {c d : ClientSession}
  {sent received : List Message} {new more : List (UInt8 × Message)} {m : Message}

theorem Puts.nothing (hsend : d.sendBuf = c.sendBuf) (hrecv : d.recvBuf = c.recvBuf) :
    Puts ctx c d [] :=
  ⟨by simp [hsend], hrecv⟩

theorem Puts.trans {e : ClientSession} (h : Puts ctx c d new) (h' : Puts ctx d e more) :
    Puts ctx c e (new ++ more) :=
  ⟨by rw [h'.sendBuf, h.sendBuf, List.append_assoc, List.map_append, List.flatten_append],
    h'.recvBuf.trans h.recvBuf⟩

/-- Nothing changes that the dialog is about. -/
theorem Talks.congr (h : Talks globalIdx c sent received) (hstate : d.state = c.state)
    (hsend : d.sendBuf = c.sendBuf) (haccount : d.accountNo = c.accountNo)
    (hadded : d.added.active = c.added.active ∧ d.added.totalRecv = c.added.totalRecv) :
    Talks globalIdx d sent received where
  dialog := h.dialog
  standing := by
    have hstanding := h.standing
    rw [Standing] at hstanding ⊢
    rwa [hstate, hsend, haccount]
  logins := by
    rw [hstate]
    exact h.logins
  active := by
    rw [hstate, hadded.1]
    exact h.active
  totalRecv := hadded.2.trans h.totalRecv

theorem Talks.markDisconnected (h : Talks globalIdx c sent received) :
    Talks globalIdx c.markDisconnected sent received where
  dialog := h.dialog
  standing := trivial
  logins hne := absurd rfl hne
  active := by
    have hactive := h.active
    show (if c.state = .kActive then { c.added with active := c.added.active - 1 }
      else c.added).active = 0
    by_cases hstate : c.state = .kActive
    · rw [if_pos hstate] at hactive ⊢
      exact sub_eq_zero.2 hactive
    · rwa [if_neg hstate] at hactive ⊢
  totalRecv := by
    rw [← h.totalRecv, ClientSession.markDisconnected]
    dsimp only
    split_ifs <;> rfl

/-- **An active session puts a request into `sendBuf`.** -/
theorem Talks.put (h : Talks globalIdx c sent received) (hstate : c.state = .kActive)
    (hm : ∀ n, 2 ≤ n → Turn globalIdx n m) (rKey : UInt8) :
    Talks globalIdx (c.put ctx rKey m) (sent ++ [m]) received := by
  have hstanding := h.standing
  rw [Standing, hstate] at hstanding
  refine ⟨dialog_append h.dialog (hm _ hstanding.1), ?_, h.logins, h.active, h.totalRecv⟩
  rw [Standing, show (c.put ctx rKey m).state = .kActive from hstate, List.length_append]
  exact ⟨hstanding.1.trans (Nat.le_add_right _ _), hstanding.2⟩

theorem puts_put (rKey : UInt8) : Puts ctx c (c.put ctx rKey m) [(rKey, m)] :=
  ⟨by rw [List.map_singleton, List.flatten_singleton]; rfl, rfl⟩

/-! ## A turn of the worker -/

theorem turn_chat (n : ℕ) (hn : 2 ≤ n) :
    Turn globalIdx n (chatRequest (accountNoOf globalIdx)) := by
  obtain ⟨n, rfl⟩ := Nat.exists_eq_add_of_le' hn
  exact .inr (.inl rfl)

theorem turn_heartbeat (n : ℕ) (hn : 2 ≤ n) : Turn globalIdx n .reqHeartbeat := by
  obtain ⟨n, rfl⟩ := Nat.exists_eq_add_of_le' hn
  exact .inr (.inr rfl)

/-- What the session says in a step that is no receive. -/
def Goes (globalIdx : Fin (2 ^ 31)) (ctx : WorkerContext) (sent received : List Message)
    (c d : ClientSession) : Prop :=
  ∃ new : List (UInt8 × Message),
    Talks globalIdx d (sent ++ new.map Prod.snd) received ∧ Puts ctx c d new

theorem Goes.nothing (h : Talks globalIdx d sent received) (hsend : d.sendBuf = c.sendBuf)
    (hrecv : d.recvBuf = c.recvBuf) : Goes globalIdx ctx sent received c d :=
  ⟨[], by simpa using h, .nothing hsend hrecv⟩

/-- An active session says something, if there is room for it. -/
theorem goes_sendChatPacket (h : Talks globalIdx c sent received) (hstate : c.state = .kActive)
    (chance : Chance) (now : UInt32) : Goes globalIdx ctx sent received c
      { c.sendChatPacket ctx chance with lastMessage := now } ∧
      (c.sendChatPacket ctx chance).state = .kActive := by
  have haccount : c.accountNo = accountNoOf globalIdx := by
    have hstanding := h.standing
    rw [Standing, hstate] at hstanding
    exact hstanding.2
  rw [sendChatPacket_eq]
  split_ifs
  · have hm : ∀ n, 2 ≤ n → Turn globalIdx n (chatRequest c.accountNo) := by
      rw [haccount]
      exact turn_chat
    exact ⟨⟨[(chance.rKey, chatRequest c.accountNo)],
      (h.put hstate hm chance.rKey).congr rfl rfl rfl ⟨rfl, rfl⟩,
      ⟨(puts_put chance.rKey).sendBuf, rfl⟩⟩, hstate⟩
  · exact ⟨.nothing (h.congr rfl rfl rfl ⟨rfl, rfl⟩) rfl rfl, hstate⟩

theorem goes_sendHeartbeatPacket (h : Talks globalIdx c sent received)
    (hstate : c.state = .kActive) (chance : Chance) (now : UInt32) :
    Goes globalIdx ctx sent received c
      { c.sendHeartbeatPacket ctx chance with lastHeartbeat := now } := by
  rw [sendHeartbeatPacket_eq]
  split_ifs
  · exact ⟨[(chance.rKey, .reqHeartbeat)],
      (h.put hstate turn_heartbeat chance.rKey).congr rfl rfl rfl ⟨rfl, rfl⟩,
      ⟨(puts_put chance.rKey).sendBuf, rfl⟩⟩
  · exact .nothing (h.congr rfl rfl rfl ⟨rfl, rfl⟩) rfl rfl

theorem Goes.trans {e : ClientSession} (h : Goes globalIdx ctx sent received c d)
    (h' : ∀ sent, Talks globalIdx d sent received → Goes globalIdx ctx sent received d e) :
    Goes globalIdx ctx sent received c e := by
  obtain ⟨new, htalks, hputs⟩ := h
  obtain ⟨more, htalks', hputs'⟩ := h' _ htalks
  refine ⟨new ++ more, ?_, hputs.trans hputs'⟩
  rw [List.map_append, ← List.append_assoc]
  exact htalks'

theorem goes_sendLoginPacket (h : Talks globalIdx c sent received) (hstate : c.state = .kConnected)
    (chance : Chance) :
    Goes globalIdx ctx sent received c (c.sendLoginPacket ctx globalIdx chance) := by
  have hstanding := h.standing
  rw [Standing, hstate] at hstanding
  obtain ⟨hn, hbuf⟩ := hstanding
  rw [sendLoginPacket_eq]
  split_ifs
  · have hlogins := h.logins (by rw [hstate]; decide)
    have hactive := h.active
    rw [hstate, if_neg (by decide)] at hlogins hactive
    refine ⟨[(chance.rKey, loginRequest globalIdx)],
      ⟨dialog_append h.dialog (by rw [hn]; rfl), ?_, fun _ => hlogins, hactive, h.totalRecv⟩,
      ⟨(puts_put chance.rKey).sendBuf, rfl⟩⟩
    refine ⟨by rw [List.length_append, hn]; rfl, ?_, rfl⟩
    rw [ClientSession.put, hbuf, List.nil_append, XorPacketEncoder.length_frame,
      length_encoded_loginRequest, XorPacketEncoder.headerSize]
  · exact .nothing h rfl rfl

/-- **A turn of the worker.** -/
theorem Talks.periodic (h : Talks globalIdx c sent received) (hsock : c.sock = true)
    (now : UInt32) (chances : ℕ → Chance) (result : ConnectResult) :
    Goes globalIdx ctx sent received c (c.periodic ctx globalIdx now chances result) := by
  have hstanding := h.standing
  rw [Standing] at hstanding
  rw [ClientSession.periodic]
  cases hstate : c.state with
  | kIdle | kConnecting => simp only [hstate] at hstanding
  | kConnected => exact goes_sendLoginPacket h hstate (chances 0)
  | kLoginSent => exact .nothing h rfl rfl
  | kActive =>
    dsimp only
    by_cases hend : c.disconnectAt ≠ 0 ∧ now ≥ c.disconnectAt
    · rw [if_pos hend]
      exact .nothing h.markDisconnected rfl rfl
    rw [if_neg hend]
    obtain ⟨e, he⟩ : ∃ e, e = if now - c.lastMessage ≥ ctx.messageInterval then
        { c.sendChatPacket ctx (chances 0) with lastMessage := now } else c := ⟨_, rfl⟩
    rw [← he]
    have hchat : Goes globalIdx ctx sent received c e ∧ e.state = .kActive := by
      rw [he]
      split_ifs
      · exact goes_sendChatPacket h hstate (chances 0) now
      · exact ⟨.nothing h rfl rfl, hstate⟩
    refine hchat.1.trans fun sent h => ?_
    split_ifs
    · exact goes_sendHeartbeatPacket h hchat.2 (chances 1) now
    · exact .nothing h rfl rfl
  | kDisconnected =>
    dsimp only
    rw [if_pos hsock]
    exact .nothing (h.congr hstate.symm rfl rfl ⟨rfl, rfl⟩) rfl rfl

theorem Talks.handleSend (h : Talks globalIdx c sent received) (result : Option ℕ) :
    Talks globalIdx (c.handleSend result) sent received := by
  cases result with
  | none =>
    rw [ClientSession.handleSend]
    split_ifs
    · exact h
    · exact h.markDisconnected
  | some n =>
    refine ⟨h.dialog, ?_, h.logins, h.active, h.totalRecv⟩
    have hstanding := h.standing
    rw [Standing] at hstanding ⊢
    rw [ClientSession.handleSend]
    dsimp only
    cases hstate : c.state <;> simp only [hstate] at hstanding ⊢
    case kConnected => exact ⟨hstanding.1, by rw [hstanding.2, List.drop_nil]⟩
    case kLoginSent =>
      refine ⟨hstanding.1, ?_, hstanding.2.2⟩
      rw [List.length_drop]
      exact (Nat.sub_le _ _).trans hstanding.2.1
    case kActive => exact hstanding

/-! ## Answers -/

theorem extract_status {p : Packet} {status : BitVec 8} {tail : List UInt8}
    (h : p.Holds (toBytes 1 status ++ tail)) : (p.extract .unsignedChar).1 = status :=
  (Holds.extract (t := .unsignedChar) h).1

/-- What a session does with an answer. -/
def onAnswer (ctx : WorkerContext) (c : ClientSession) (chance : Chance) : Message → ClientSession
  | .resLogin .. =>
    ({ c with
      state := .kActive
      disconnectAt := computeDisconnectAt ctx chance
      added := { c.added with active := c.added.active + 1 } } : ClientSession).sendSectorMovePacket
        ctx chance
  | .resMessage .. =>
    { c with
      messagesRecv := c.messagesRecv + 1
      added := { c.added with totalRecv := c.added.totalRecv + 1 } }
  | _ => c

theorem handlePacket_answer {p : Packet} (hm : Answer m) (hp : p.Holds m.encoded)
    (chance : Chance) : c.handlePacket ctx (extractWord p).1 (extractWord p).2 chance =
      onAnswer ctx c chance m := by
  cases hm with
  | login accountNo =>
    rw [Message.encoded, PacketType.bytes, List.append_assoc] at hp
    obtain ⟨htype, htail⟩ := extractWord_of_holds hp
    rw [ClientSession.handlePacket, htype, if_pos rfl]
    exact if_pos (extract_status htail)
  | move accountNo sectorX sectorY =>
    rw [Message.encoded, PacketType.bytes, List.append_assoc, List.append_assoc] at hp
    obtain ⟨htype, -⟩ := extractWord_of_holds hp
    rw [ClientSession.handlePacket, htype, if_neg (by decide), if_neg (by decide)]
    rfl
  | message accountNo id nickname hlen =>
    rw [Message.encoded, PacketType.bytes, List.append_assoc, List.append_assoc,
      List.append_assoc] at hp
    obtain ⟨htype, -⟩ := extractWord_of_holds hp
    rw [ClientSession.handlePacket, htype, if_neg (by decide), if_pos rfl]
    rfl

/-- The session goes on after an answer. -/
structure Handled (globalIdx : Fin (2 ^ 31)) (ctx : WorkerContext) (sent received : List Message)
    (c d : ClientSession) (new : List (UInt8 × Message)) : Prop where
  talks : Talks globalIdx d (sent ++ new.map Prod.snd) received
  puts : Puts ctx c d new
  live : d.state ≠ .kDisconnected
  sock : d.sock = c.sock
  stays : ctx.minLifetimeMs = 0 → c.disconnectAt = 0 → d.disconnectAt = 0

/-- **The answer to the login**: the session becomes active and asks to go to a sector. -/
theorem handled_login (h : Talks globalIdx c sent received) (hlive : c.state ≠ .kDisconnected)
    (accountNo : BitVec 64)
    (hlogins : (received ++ [Message.resLogin 1 accountNo]).countP isResLogin ≤
      if sent = [] then 0 else 1) (chance : Chance) :
    ∃ new, Handled globalIdx ctx sent (received ++ [.resLogin 1 accountNo]) c
      (onAnswer ctx c chance (.resLogin 1 accountNo)) new := by
  have hcount := h.logins hlive
  have hstanding := h.standing
  rw [List.countP_append, hcount, List.countP_singleton, if_pos (show isResLogin _ = true from rfl)]
    at hlogins
  have hstate : c.state = .kLoginSent := by
    rw [Standing] at hstanding
    cases hstate : c.state <;> simp only [hstate] at hstanding hlogins
    case kConnected =>
      rw [if_pos (List.length_eq_zero_iff.1 hstanding.1)] at hlogins
      omega
    case kLoginSent => rfl
    case kActive =>
      rw [if_pos trivial] at hlogins
      split_ifs at hlogins <;> omega
    case kDisconnected => exact absurd hstate hlive
  rw [Standing, hstate] at hstanding
  obtain ⟨hlen, hbuf, haccount⟩ := hstanding
  have hactive := h.active
  rw [hstate, if_neg (by decide)] at hcount hactive
  have hroom : HasRoom { c with
      state := .kActive
      disconnectAt := computeDisconnectAt ctx chance
      added := { c.added with active := c.added.active + 1 } } (moveRequest c.accountNo chance) := by
    rw [HasRoom, length_encoded_moveRequest, sizeofBuf]
    exact (Nat.add_le_add_right hbuf _).trans (by decide)
  rw [onAnswer, sendSectorMovePacket_eq, if_pos hroom]
  refine ⟨[(chance.rKey, moveRequest c.accountNo chance)],
    ⟨⟨dialog_append h.dialog ?_, ?_, fun _ => ?_, ?_, ?_⟩, ⟨(puts_put chance.rKey).sendBuf, rfl⟩,
      (show SessionState.kActive ≠ .kDisconnected by decide), rfl, fun hlife _ => if_pos hlife⟩⟩
  · rw [hlen, haccount]
    exact ⟨chance, rfl⟩
  · rw [Standing, List.length_append, hlen]
    exact ⟨le_rfl, haccount⟩
  · rw [List.countP_append, hcount]
    rfl
  · show c.added.active + 1 = 1
    rw [hactive]
    rfl
  · show c.added.totalRecv = _
    rw [List.countP_append, h.totalRecv]
    rfl

/-- **One answer.** The login is answered once, and only after it has been sent. -/
theorem Talks.onAnswer (h : Talks globalIdx c sent received) (ctx : WorkerContext)
    (hlive : c.state ≠ .kDisconnected) (hm : Answer m)
    (hlogins : (received ++ [m]).countP isResLogin ≤ if sent = [] then 0 else 1) (chance : Chance) :
    ∃ new, Handled globalIdx ctx sent (received ++ [m]) c (onAnswer ctx c chance m) new := by
  cases hm with
  | login accountNo => exact handled_login h hlive accountNo hlogins chance
  | move accountNo sectorX sectorY =>
    refine ⟨[], ⟨⟨?_, ?_, fun hne => ?_, h.active, ?_⟩, .nothing rfl rfl, hlive, rfl,
      fun _ h => h⟩⟩
    · rw [List.map_nil, List.append_nil]
      exact h.dialog
    · rw [List.map_nil, List.append_nil]
      exact h.standing
    · rw [List.countP_append]
      exact h.logins hne
    · rw [List.countP_append]
      exact h.totalRecv
  | message accountNo id nickname hlen =>
    refine ⟨[], ⟨⟨?_, ?_, fun hne => ?_, h.active, ?_⟩, .nothing rfl rfl, hlive, rfl,
      fun _ h => h⟩⟩
    · rw [List.map_nil, List.append_nil]
      exact h.dialog
    · rw [List.map_nil, List.append_nil]
      exact h.standing
    · rw [List.countP_append]
      exact h.logins hne
    · rw [List.countP_append]
      exact congrArg (· + 1) h.totalRecv

theorem Handled.trans {e : ClientSession} {received' : List Message}
    (h : Handled globalIdx ctx sent received c d new)
    (h' : Handled globalIdx ctx (sent ++ new.map Prod.snd) received' d e more) :
    Handled globalIdx ctx sent received' c e (new ++ more) where
  talks := by
    rw [List.map_append, ← List.append_assoc]
    exact h'.talks
  puts := h.puts.trans h'.puts
  live := h'.live
  sock := h'.sock.trans h.sock
  stays hlife hzero := h'.stays hlife (h.stays hlife hzero)

/-- **The answers that have arrived.** -/
theorem Talks.handles {ms : List Message} (h : Talks globalIdx c sent received)
    (hlive : c.state ≠ .kDisconnected) (hms : ∀ m ∈ ms, Answer m)
    (hlogins : (received ++ ms).countP isResLogin ≤ if sent = [] then 0 else 1)
    (hh : Handles ctx c (ms.map Message.encoded) d) :
    ∃ new, Handled globalIdx ctx sent (received ++ ms) c d new := by
  induction ms generalizing c sent received with
  | nil =>
    cases hh
    rw [List.append_nil]
    exact ⟨[], by simpa using h, .nothing rfl rfl, hlive, rfl, fun _ h => h⟩
  | cons m ms ih =>
    have hm := hms m (by simp)
    have happend : received ++ m :: ms = received ++ [m] ++ ms := by
      rw [List.append_assoc, List.singleton_append]
    rw [happend] at hlogins ⊢
    have hone : (received ++ [m]).countP isResLogin ≤ if sent = [] then 0 else 1 := by
      rw [List.countP_append] at hlogins
      exact (Nat.le_add_right _ _).trans hlogins
    cases hh with
    | @cons _ _ _ _ p chance hp hh =>
      rw [handlePacket_answer hm hp] at hh
      obtain ⟨new, hnew⟩ := h.onAnswer ctx hlive hm hone chance
      have hmore : (received ++ [m] ++ ms).countP isResLogin ≤
          if sent ++ new.map Prod.snd = [] then 0 else 1 := by
        refine hlogins.trans ?_
        by_cases hnil : sent = []
        · rw [if_pos hnil]
          exact Nat.zero_le _
        · rw [if_neg hnil, if_neg fun h => hnil (List.append_eq_nil_iff.1 h).1]
      obtain ⟨more, hrest⟩ :=
        ih hnew.talks hnew.live (fun m' hm' => hms m' (by simp [hm'])) hmore hh
      exact ⟨new ++ more, hnew.trans hrest⟩

end NetworkLibrary.ChatDummyClient
