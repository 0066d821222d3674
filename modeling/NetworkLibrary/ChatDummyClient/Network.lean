import NetworkLibrary.ChatDummyClient.Talks

/-!
# The dummy clients at the chat server

Any number of connections, each with a session of `ChatDummyClient` at one end and the receive side
of a session of the server at the other, and the job loop of `ChatServer`. Streams are cut in any
way; the workers of the client, the receive completions and the job loop take turns in any order;
the two ends may give up a connection at any time. A socket that the client has closed is the end of
its connection: `ResetSessionForReconnect` leaves nothing in the buffers of a session that connects
again.

Whatever happens, the server is the chat room all the time (`network_refined`).
-/

namespace NetworkLibrary.ChatDummyClient

open Foundations ChatServer ClientSession
open Receive (RecvSide Pool receiving fitsBehind recvHandler)
open Delivery (Unlimited Fitting Passes)

/-! ## The system -/

/-- A connection and its two ends. -/
structure Connection where
  client : ClientSession
  /-- The bytes sent to the server and not delivered. -/
  upstream : List UInt8
  receiver : RecvSide
  /-- How many of the messages passed to `OnRecv` have been handled as jobs. -/
  taken : ℕ
  /-- The bytes sent to the client and not received. -/
  downstream : List UInt8

structure Network where
  server : State
  connection : UInt64 → Connection

/-- What happens at a connection. -/
inductive Act
  /-- The worker has looked after its sockets, and gives the session a turn. -/
  | periodic (now : UInt32) (chances : ℕ → Chance) (result : ConnectResult)
  | handleSend (result : Option ℕ)
  | handleRecv (chances : ℕ → Chance) (result : RecvResult)
  /-- A receive of the server completes. -/
  | deliver (transferred : ℕ)
  /-- The server executes `SessionUseFlag = false` of `KillSession`. -/
  | killSession

inductive Label
  | act (sessionID : UInt64) (a : Act)
  /-- The server handles a job; `rKey` is the random byte of `Encode`. -/
  | job (job : Job) (rKey : UInt8)

/-- What the two programs run with. -/
structure Setup where
  ctx : WorkerContext
  enc : XorPacketEncoder
  pool : Pool
  globalIdx : UInt64 → Fin (2 ^ 31)

namespace ClientSession

/-- `select` looks at the socket of the session. -/
def selected (s : ClientSession) : Bool := s.sock ∧ s.state ≠ .kDisconnected

/-- The bytes that `recv` returns. -/
def RecvResult.received : RecvResult → List UInt8
  | .bytes received => received
  | .wouldBlock | .closed => []

/-- `recv` returns at least one byte of the stream, and not more than there is room for. -/
def receivable (s : ClientSession) (stream : List UInt8) : RecvResult → Bool
  | .bytes received => (received ≠ [] ∧ received.isPrefixOf stream) ∧
      s.recvBuf.length + received.length ≤ sizeofBuf
  | .wouldBlock | .closed => true

end ClientSession

namespace Connection

/-- One step of a connection. -/
def step (setup : Setup) (sessionID : UInt64) (c : Connection) : Act → Option Connection
  | .periodic now chances result =>
    if c.client.sock then
      some { c with
        client := c.client.periodic setup.ctx (setup.globalIdx sessionID) now chances result }
    else none
  | .handleSend result =>
    if c.client.selected ∧ result.getD 0 ≤ c.client.sendBuf.length then
      some { c with
        client := c.client.handleSend result
        upstream := c.upstream ++ c.client.sendBuf.take (result.getD 0) }
    else none
  | .handleRecv chances result =>
    if c.client.selected ∧ c.client.receivable c.downstream result then
      (c.client.handleRecv setup.ctx chances result).map fun client =>
        { c with client, downstream := c.downstream.drop result.received.length }
    else none
  | .deliver n =>
    if n ≤ c.upstream.length then
      ((receiving setup.enc setup.pool).step c.receiver (c.upstream.take n)).map fun r =>
        { c with upstream := c.upstream.drop n, receiver := r }
    else none
  | .killSession => some { c with receiver := { c.receiver with sessionUseFlag := false } }

/-- How many messages of the session the job takes. -/
def takes (sessionID : UInt64) : Job → ℕ
  | .message id .. => if id = sessionID then 1 else 0
  | .join .. | .leave _ | .heartbeat _ => 0

/-- The server has handled a job, and what it has sent to the session is on its way. -/
def answered (setup : Setup) (sessionID : UInt64) (c : Connection) (job : Job) (rKey : UInt8)
    (events : List Event) : Connection :=
  { c with
    taken := c.taken + takes sessionID job
    downstream := c.downstream ++
      ((packetsTo sessionID events).map (setup.enc.frame rKey)).flatten }

/-- A connection that the client has just made. -/
structure Fresh (memory : ℤ → UInt8) (c : Connection) : Prop where
  sock : c.client.sock = true
  state : c.client.state = .kConnected
  sendBuf : c.client.sendBuf = []
  recvBuf : c.client.recvBuf = []
  disconnectAt : c.client.disconnectAt = 0
  active : c.client.added.active = 0
  totalRecv : c.client.added.totalRecv = 0
  upstream : c.upstream = []
  receiver : c.receiver = Receive.initSession memory
  taken : c.taken = 0
  downstream : c.downstream = []

end Connection

/-- A message is handled that `OnRecv` has got, the next one of its session. -/
def Network.posted (n : Network) : Job → Bool
  | .message sessionID m _ =>
    (n.connection sessionID).receiver.outputs[(n.connection sessionID).taken]? =
      some (.onRecv m.payload)
  | .join .. | .leave _ | .heartbeat _ => true

/-- One step of the system. -/
def Network.step (setup : Setup) (n : Network) : Label → Option Network
  | .act sessionID a => ((n.connection sessionID).step setup sessionID a).map fun c =>
      { n with connection := Function.update n.connection sessionID c }
  | .job job rKey =>
    if n.posted job then
      (jobs.step n.server job).map fun server =>
        { server
          connection := fun sessionID => (n.connection sessionID).answered setup sessionID job rKey
            (server.events.drop n.server.events.length) }
    else none

/-- The runs of the system. `memory` is what the buffers of the receive sides held before. -/
def network (setup : Setup) (memory : UInt64 → ℤ → UInt8) : Lts Network Label where
  init n := jobs.init n.server ∧ ∀ sessionID, (n.connection sessionID).Fresh (memory sessionID)
  step := Network.step setup

/-- A completion fits behind `Rear`. -/
def within (n : Network) : Label → Bool
  | .act sessionID (.deliver k) =>
    fitsBehind (n.connection sessionID).receiver ((n.connection sessionID).upstream.take k)
  | _ => true

/-- The two encoders match. -/
structure Setup.Matching (setup : Setup) : Prop where
  headerCode : setup.ctx.encoder.headerCode = setup.enc.headerCode
  encryptKey : setup.ctx.encoder.encryptKey = setup.enc.encryptKey
  client : Unlimited setup.ctx.encoder
  server : Unlimited setup.enc

/-! ## Connections -/

/-- The requests of a session and the answers to it, by what has become of them: of the requests
some have been passed to `OnRecv`, and of the answers some have been handled by the client. -/
structure Conveys (setup : Setup) (sessionID : UInt64) (c : Connection)
    (asked asking answers answering : List (UInt8 × Message)) : Prop where
  up : Passes setup.enc (frameOf setup.ctx.encoder) (fun b => b.2.encoded) c.receiver
    (asked ++ asking) asked asking (c.upstream ++ c.client.sendBuf)
  down : Carried (next setup.ctx.encoder) (frameOf setup.ctx.encoder) (answers ++ answering)
    answers answering c.client.recvBuf c.downstream
  talks : Talks (setup.globalIdx sessionID) c.client ((asked ++ asking).map Prod.snd)
    (answers.map Prod.snd)
  taken : c.taken ≤ asked.length

/-- What the room has for a session, of which it has handled so many requests. -/
structure Served (setup : Setup) (sessionID : UInt64) (phase : ChatServer.Phase) (r : Room)
    (taken : ℕ) : Prop where
  unknown : phase = .unknown → taken = 0
  stage : ∀ m, r.member sessionID = some m → Stage (setup.globalIdx sessionID) taken m
  answers : ∀ m ∈ r.received sessionID, Answer m
  logins : (r.received sessionID).countP isResLogin = if taken = 0 then 0 else 1

/-- The connection carries the answers of the room. -/
def Conveying (setup : Setup) (sessionID : UInt64) (c : Connection) (received : List Message) :
    Prop :=
  ∃ asked asking answers answering, (answers ++ answering).map Prod.snd = received ∧
    Conveys setup sessionID c asked asking answers answering

/-- The server is the room, and the connections carry what the room and the sessions say. -/
structure Serves (setup : Setup) (n : Network) (r : Room) : Prop where
  runs : (jobs.prod chatRoom).ReachableVia (fun _ l => Speaks l.1 l.2) (n.server, r)
  served : ∀ sessionID, Served setup sessionID (n.server.phase sessionID) r
    (n.connection sessionID).taken
  conveying : ∀ sessionID,
    Conveying setup sessionID (n.connection sessionID) (r.received sessionID)

variable {setup : Setup} {memory : UInt64 → ℤ → UInt8} {n n' : Network} {r r' : Room}
  {sessionID : UInt64} {c d : Connection} {asked asking answers answering : List (UInt8 × Message)}

/-- The stream to the server is one of frames of payloads that fit. -/
theorem frames_up (h : setup.Matching) :
    Frames setup.enc.next (frameOf setup.ctx.encoder) (fun b => b.2.encoded)
      fun b : UInt8 × Message => Fitting b.2.encoded :=
  Delivery.frames_of_fitting h.server Prod.fst
    (fun _ _ => Receive.frame_congr h.headerCode h.encryptKey _ _) fun _ hb => hb

/-- And so is the stream to the client. -/
theorem frames_down (h : setup.Matching) :
    Frames (next setup.ctx.encoder) (frameOf setup.ctx.encoder) (fun b => b.2.encoded)
      fun b : UInt8 × Message => Fitting b.2.encoded :=
  frames h.client Prod.fst (fun _ _ => rfl) fun _ hb => hb

namespace Conveys

theorem fitting_asking (h : Conveys setup sessionID c asked asking answers answering) :
    ∀ b ∈ asked ++ asking, Fitting b.2.encoded := by
  intro b hb
  obtain ⟨i, hi⟩ := List.mem_iff_getElem?.1 (List.mem_map_of_mem (f := Prod.snd) hb)
  exact (h.talks.dialog i b.2 hi).fitting

/-- **A step of the client** that is no receive. -/
theorem go (h : Conveys setup sessionID c asked asking answers answering) {client : ClientSession}
    (hgoes : Goes (setup.globalIdx sessionID) setup.ctx ((asked ++ asking).map Prod.snd)
      (answers.map Prod.snd) c.client client) :
    ∃ asking', Conveys setup sessionID { c with client } asked asking' answers answering := by
  obtain ⟨new, htalks, hputs⟩ := hgoes
  refine ⟨asking ++ new, ?_, ?_, ?_, h.taken⟩
  · have hsend := h.up.send new
    rw [List.append_assoc, List.append_assoc, ← hputs.sendBuf] at hsend
    exact hsend
  · dsimp only
    rw [hputs.recvBuf]
    exact h.down
  · rw [← List.append_assoc, List.map_append]
    exact htalks

/-- Bytes of `sendBuf` are sent. -/
theorem handleSend (h : Conveys setup sessionID c asked asking answers answering)
    (result : Option ℕ) : Conveys setup sessionID
      { c with
        client := c.client.handleSend result
        upstream := c.upstream ++ c.client.sendBuf.take (result.getD 0) }
      asked asking answers answering := by
  have htalks := h.talks.handleSend result
  cases result with
  | none =>
    rw [ClientSession.handleSend] at htalks ⊢
    have hup := h.up
    split_ifs at htalks ⊢
    · exact ⟨by simpa using hup, h.down, htalks, h.taken⟩
    · refine ⟨?_, h.down, htalks, h.taken⟩
      rw [Option.getD_none, List.take_zero, List.append_nil]
      exact hup
  | some k =>
    refine ⟨?_, h.down, htalks, h.taken⟩
    have hup := h.up
    rw [← List.take_append_drop k c.client.sendBuf, ← List.append_assoc] at hup
    exact hup

theorem markDisconnected (h : Conveys setup sessionID c asked asking answers answering) :
    ∃ asking', Conveys setup sessionID { c with client := c.client.markDisconnected } asked asking'
      answers answering :=
  h.go (.nothing h.talks.markDisconnected rfl rfl)

/-- There is always room in `recvBuf`. -/
theorem length_recvBuf (hm : setup.Matching)
    (h : Conveys setup sessionID c asked asking answers answering)
    (hanswer : ∀ b ∈ answering, Answer b.2) : c.client.recvBuf.length < sizeofBuf := by
  rcases h.down.length_held (frames_down hm) fun b hb => (hanswer b hb).fitting with
    hnil | ⟨b, hb, hlt⟩
  · rw [hnil]
    decide
  · have hlen : (setup.ctx.encoder.frame b.1 b.2.encoded).length ≤ 1009 :=
      Delivery.length_frame_of_fitting (hanswer b hb).fitting
    rw [frameOf] at hlt
    rw [sizeofBuf]
    omega

/-- **Something is received**: the client handles the answers that have arrived by now. -/
theorem handleRecv (hm : setup.Matching)
    (h : Conveys setup sessionID c asked asking answers answering)
    (hanswer : ∀ b ∈ answering, Answer b.2) (hlive : c.client.state ≠ .kDisconnected)
    (hlogins : ((answers ++ answering).map Prod.snd).countP isResLogin ≤
      if (asked ++ asking).map Prod.snd = [] then 0 else 1)
    {received rest : List UInt8} (hstream : c.downstream = received ++ rest)
    (chances : ℕ → Chance) : ∃ new k t left,
      Handled (setup.globalIdx sessionID) setup.ctx ((asked ++ asking).map Prod.snd)
        ((answers ++ answering.take k).map Prod.snd) c.client t new ∧
      c.client.handleRecv setup.ctx chances (.bytes received) =
        some { t with recvBuf := left } ∧
      Conveys setup sessionID
        { c with
          client := { t with recvBuf := left }
          downstream := rest }
        asked (asking ++ new) (answers ++ answering.take k) (answering.drop k) := by
  have hdown := h.down
  rw [hstream] at hdown
  obtain ⟨k, left, hparse, hnext⟩ :=
    hdown.arrive (frames_down hm) fun b hb => (hanswer b hb).fitting
  obtain ⟨t, ps, o, hparse', hhandles, hwaiting, -⟩ :=
    processed_processLoop setup.ctx (le_refl (c.client.recvBuf ++ received).length) c.client chances
  obtain ⟨rfl, rfl⟩ := hparse'.unique hparse
  have hps : (answering.take k).map (fun b => b.2.encoded) =
      ((answering.take k).map Prod.snd).map Message.encoded := by
    rw [List.map_map]
    rfl
  rw [hps] at hhandles
  obtain ⟨new, hnew⟩ := h.talks.handles hlive (fun m hm' => by
      obtain ⟨b, hb, rfl⟩ := List.mem_map.1 hm'
      exact hanswer b (List.mem_of_mem_take hb)) (by
      rw [← List.map_append]
      refine le_trans ?_ hlogins
      refine List.Sublist.countP_le (List.Sublist.map _ ?_)
      exact (List.Sublist.refl _).append (List.take_sublist k answering)) hhandles
  rw [← List.map_append] at hnew
  refine ⟨new, k, t, left, hnew, ?_, ?_, ?_, ?_, h.taken⟩
  · have hroom := h.length_recvBuf hm hanswer
    rw [ClientSession.handleRecv, if_neg (not_le.2 hroom)]
    dsimp only
    rw [hwaiting left rfl]
    rfl
  · have hup := h.up.send new
    rw [List.append_assoc, List.append_assoc, ← hnew.puts.sendBuf] at hup
    exact hup
  · rw [List.append_assoc, List.take_append_drop]
    exact hnext
  · rw [← List.append_assoc, List.map_append]
    exact hnew.talks.congr rfl rfl rfl ⟨rfl, rfl⟩

/-- **A receive of the server completes.** -/
theorem deliver (hm : setup.Matching)
    (h : Conveys setup sessionID c asked asking answers answering) {k : ℕ} {receiver : RecvSide}
    (hfit : fitsBehind c.receiver (c.upstream.take k) = true)
    (hr : recvHandler setup.enc setup.pool c.receiver (c.upstream.take k) = some receiver) :
    ∃ j, Conveys setup sessionID
      { c with
        upstream := c.upstream.drop k
        receiver := receiver }
      (asked ++ asking.take j) (asking.drop j) answers answering ∧
      receiver.sessionUseFlag = c.receiver.sessionUseFlag := by
  have hup := h.up
  rw [← List.take_append_drop k c.upstream, List.append_assoc] at hup
  obtain ⟨j, hpasses, huse⟩ := hup.deliver (frames_up hm) (fun _ hb => hb)
    (fun b hb => h.fitting_asking b (List.mem_append_right _ hb)) hfit hr
  have hall : asked ++ asking.take j ++ asking.drop j = asked ++ asking := by
    rw [List.append_assoc, List.take_append_drop]
  refine ⟨j, ⟨?_, h.down, ?_, h.taken.trans ?_⟩, huse⟩
  · rw [hall]
    exact hpasses
  · rw [hall]
    exact h.talks
  · rw [List.length_append]
    exact Nat.le_add_right _ _

/-- What `OnRecv` has got next is a request at its turn. -/
theorem posted (h : Conveys setup sessionID c asked asking answers answering)
    {payload : List UInt8} (hposted : c.receiver.outputs[c.taken]? = some (.onRecv payload)) :
    c.taken + 1 ≤ asked.length ∧ ∃ m, payload = m.encoded ∧
      Turn (setup.globalIdx sessionID) c.taken m := by
  rw [h.up.outputs, List.getElem?_map, Option.map_eq_some_iff] at hposted
  obtain ⟨b, hb, heq⟩ := hposted
  have hlt := (List.getElem?_eq_some_iff.1 hb).1
  refine ⟨hlt, b.2, (Receive.Output.onRecv.inj heq).symm, h.talks.dialog _ _ ?_⟩
  rw [List.getElem?_map, List.getElem?_append_left hlt, hb, Option.map_some]

/-- The server answers packets to the session. -/
theorem answered (hm : setup.Matching)
    (h : Conveys setup sessionID c asked asking answers answering) {job : Job}
    {events : List Event} {ms : List Message}
    (hto : packetsTo sessionID events = ms.map Message.encoded) (rKey : UInt8)
    (htaken : c.taken + Connection.takes sessionID job ≤ asked.length) :
    Conveys setup sessionID (c.answered setup sessionID job rKey events) asked asking answers
      (answering ++ ms.map fun m => (rKey, m)) := by
  refine ⟨h.up, ?_, h.talks, htaken⟩
  have hdown := h.down.send (ms.map fun m => (rKey, m))
  have hframes : (packetsTo sessionID events).map (setup.enc.frame rKey) =
      (ms.map fun m => (rKey, m)).map (frameOf setup.ctx.encoder) := by
    rw [hto, List.map_map, List.map_map]
    exact List.map_congr_left fun m _ =>
      (Receive.frame_congr hm.headerCode hm.encryptKey rKey m.encoded).symm
  rw [← hframes, List.append_assoc] at hdown
  exact hdown

end Conveys

namespace Conveying

variable {phase : ChatServer.Phase}

theorem length_recvBuf (hm : setup.Matching)
    (h : Conveying setup sessionID c (r.received sessionID))
    (hserved : Served setup sessionID phase r c.taken) : c.client.recvBuf.length < sizeofBuf := by
  obtain ⟨asked, asking, answers, answering, hall, h⟩ := h
  exact h.length_recvBuf hm fun b hb =>
    hserved.answers b.2 (hall ▸ List.mem_map_of_mem (List.mem_append_right _ hb))

theorem handleRecv (hm : setup.Matching) (h : Conveying setup sessionID c (r.received sessionID))
    (hserved : Served setup sessionID phase r c.taken) (hselected : c.client.selected = true)
    {bytes : List UInt8} (hreceivable : c.client.receivable c.downstream (.bytes bytes) = true)
    (chances : ℕ → Chance) : ∃ sent received t new left,
      Handled (setup.globalIdx sessionID) setup.ctx sent received c.client t new ∧
      c.client.handleRecv setup.ctx chances (.bytes bytes) = some { t with recvBuf := left } ∧
      Conveying setup sessionID
        { c with
          client := { t with recvBuf := left }
          downstream := c.downstream.drop bytes.length } (r.received sessionID) := by
  obtain ⟨asked, asking, answers, answering, hall, h⟩ := h
  have hlive : c.client.state ≠ .kDisconnected := by
    simp only [ClientSession.selected, decide_eq_true_eq] at hselected
    exact hselected.2
  simp only [ClientSession.receivable, decide_eq_true_eq, List.isPrefixOf_iff_prefix]
    at hreceivable
  obtain ⟨rest, hrest⟩ := hreceivable.1.2
  -- the login is answered once, and only after a request has been handled
  have hlogins : ((answers ++ answering).map Prod.snd).countP isResLogin ≤
      if (asked ++ asking).map Prod.snd = [] then 0 else 1 := by
    rw [hall, hserved.logins]
    have htaken := h.taken
    by_cases hzero : c.taken = 0
    · rw [if_pos hzero]
      exact Nat.zero_le _
    · rw [if_neg hzero, if_neg]
      intro hnil
      obtain ⟨rfl, -⟩ := List.append_eq_nil_iff.1 (List.map_eq_nil_iff.1 hnil)
      exact hzero (Nat.le_zero.1 htaken)
  obtain ⟨new, k, t, left, hhandled, heq, h⟩ := h.handleRecv hm (fun b hb =>
    hserved.answers b.2 (hall ▸ List.mem_map_of_mem (List.mem_append_right _ hb))) hlive hlogins
    hrest.symm chances
  refine ⟨_, _, t, new, left, hhandled, heq, asked, asking ++ new, answers ++ answering.take k,
    answering.drop k, ?_, ?_⟩
  · rw [List.append_assoc, List.take_append_drop, hall]
  · rw [← hrest, List.drop_left]
    exact h

/-- **`tmpPacket` has room** for every message of the room. -/
theorem isSome_handleRecv (hm : setup.Matching)
    (h : Conveying setup sessionID c (r.received sessionID))
    (hserved : Served setup sessionID phase r c.taken) (hselected : c.client.selected = true)
    {result : RecvResult} (hreceivable : c.client.receivable c.downstream result = true)
    (chances : ℕ → Chance) : (c.client.handleRecv setup.ctx chances result).isSome = true := by
  cases result with
  | wouldBlock | closed => rfl
  | bytes bytes =>
    obtain ⟨_, _, t, new, left, -, heq, -⟩ :=
      h.handleRecv hm hserved hselected hreceivable chances
    rw [heq]
    rfl

/-- **One step of a connection** leaves what the room has for the session alone. -/
theorem step (hm : setup.Matching) (h : Conveying setup sessionID c (r.received sessionID))
    (hserved : Served setup sessionID phase r c.taken) {a : Act}
    (hwithin : ∀ k, a = .deliver k → fitsBehind c.receiver (c.upstream.take k) = true)
    (hst : c.step setup sessionID a = some d) :
    Conveying setup sessionID d (r.received sessionID) ∧ d.taken = c.taken := by
  cases a with
  | periodic now chances result =>
    obtain ⟨hsock, hst⟩ := Option.ite_none_right_eq_some.1 hst
    obtain rfl := Option.some.inj hst
    obtain ⟨asked, asking, answers, answering, hall, h⟩ := h
    obtain ⟨asking', h⟩ := h.go (h.talks.periodic hsock now chances result)
    exact ⟨⟨asked, asking', answers, answering, hall, h⟩, rfl⟩
  | handleSend result =>
    obtain ⟨-, hst⟩ := Option.ite_none_right_eq_some.1 hst
    obtain rfl := Option.some.inj hst
    obtain ⟨asked, asking, answers, answering, hall, h⟩ := h
    exact ⟨⟨asked, asking, answers, answering, hall, h.handleSend result⟩, rfl⟩
  | handleRecv chances result =>
    obtain ⟨⟨hselected, hreceivable⟩, hst⟩ := Option.ite_none_right_eq_some.1 hst
    obtain ⟨client, hclient, rfl⟩ := Option.map_eq_some_iff.1 hst
    cases result with
    | wouldBlock =>
      rw [ClientSession.handleRecv, if_neg (not_le.2 (h.length_recvBuf hm hserved))] at hclient
      obtain rfl := Option.some.inj hclient
      exact ⟨h, rfl⟩
    | closed =>
      obtain rfl := Option.some.inj hclient
      obtain ⟨asked, asking, answers, answering, hall, h⟩ := h
      obtain ⟨asking', h⟩ := h.markDisconnected
      exact ⟨⟨asked, asking', answers, answering, hall, h⟩, rfl⟩
    | bytes bytes =>
      obtain ⟨_, _, t, new, left, -, heq, h⟩ :=
        h.handleRecv hm hserved hselected hreceivable chances
      obtain rfl := Option.some.inj (heq.symm.trans hclient)
      exact ⟨h, rfl⟩
  | deliver k =>
    obtain ⟨-, hst⟩ := Option.ite_none_right_eq_some.1 hst
    obtain ⟨receiver, hr, rfl⟩ := Option.map_eq_some_iff.1 hst
    obtain ⟨-, hhandler⟩ := Receive.receiving_step hr
    obtain ⟨asked, asking, answers, answering, hall, h⟩ := h
    obtain ⟨j, h, -⟩ := h.deliver hm (hwithin k rfl) hhandler
    exact ⟨⟨_, _, answers, answering, hall, h⟩, rfl⟩
  | killSession =>
    obtain rfl := Option.some.inj hst
    obtain ⟨asked, asking, answers, answering, hall, h⟩ := h
    exact ⟨⟨asked, asking, answers, answering, hall, h.up.killSession, h.down, h.talks, h.taken⟩,
      rfl⟩

end Conveying

/-! ## Jobs -/

namespace Served

variable {phase phase' : ChatServer.Phase} {taken : ℕ}

/-- Nothing changes for the session. -/
theorem congr (h : Served setup sessionID phase r taken)
    (hphase : phase' = .unknown → phase = .unknown)
    (hmember : ∀ m, r'.member sessionID = some m → r.member sessionID = some m)
    (hreceived : r'.received sessionID = r.received sessionID) :
    Served setup sessionID phase' r' taken where
  unknown hp := h.unknown (hphase hp)
  stage m hm := h.stage m (hmember m hm)
  answers := by
    rw [hreceived]
    exact h.answers
  logins := by
    rw [hreceived]
    exact h.logins

/-- The room has answered a request. -/
theorem answer {id : UInt64} {k : ℕ} (h : Served setup id phase r taken)
    (hanswered : Answered (setup.globalIdx sessionID) k sessionID r r')
    (hk : id = sessionID → phase ≠ .unknown ∧ taken = k) :
    Served setup id phase r' (taken + if sessionID = id then 1 else 0) := by
  obtain ⟨new, hnew, hall, hcount⟩ := hanswered.sent id
  have hanswers : ∀ m ∈ r'.received id, Answer m := by
    rw [hnew]
    intro m hm
    rcases List.mem_append.1 hm with hm | hm
    · exact h.answers m hm
    · exact hall m hm
  have hlogins := h.logins
  by_cases hid : sessionID = id
  · subst hid
    obtain ⟨hphase, rfl⟩ := hk rfl
    obtain ⟨member, hmember, hstage⟩ := hanswered.member
    rw [if_pos rfl]
    refine ⟨fun hp => absurd hp hphase, fun m hm => ?_, hanswers, ?_⟩
    · obtain rfl := Option.some.inj (hmember.symm.trans hm)
      exact hstage
    · rw [hnew, List.countP_append, hlogins, hcount]
      by_cases hzero : taken = 0
      · simp [hzero]
      · simp [hzero]
  · rw [if_neg hid, Nat.add_zero]
    refine ⟨h.unknown, fun m hm => h.stage m ?_, hanswers, ?_⟩
    · rw [← hanswered.others id (Ne.symm hid)]
      exact hm
    · rw [hnew, List.countP_append, hlogins, hcount,
        if_neg (show ¬(id = sessionID ∧ k = 0) from fun hk => hid hk.1.symm), Nat.add_zero]

end Served

/-- **The room accepts what a job brings.** -/
theorem Serves.exists_input (h : Serves setup n r) {job : Job} {t : State}
    (hposted : n.posted job = true) (hst : jobs.step n.server job = some t) :
    ∃ input r', Speaks job input ∧ r.step input = some r' ∧ ∀ sessionID,
      Served setup sessionID (t.phase sessionID) r'
        ((n.connection sessionID).taken + Connection.takes sessionID job) := by
  obtain ⟨-, horder, server, events, -, rfl⟩ := step_eq_some.1 hst
  have hmember : ∀ id, r.member id ≠ none ↔ n.server.phase id = .joined :=
    fun _ => member_ne_none_iff h.runs
  cases job with
  | join sessionID character time =>
    have hunknown : n.server.phase sessionID = .unknown := of_decide_eq_true horder
    have hnone : r.member sessionID = none := by
      by_contra hne
      rw [(hmember sessionID).1 hne] at hunknown
      cases hunknown
    refine ⟨.join sessionID time, _, .join, by rw [Room.step, hnone], fun id => ?_⟩
    by_cases hid : id = sessionID
    · subst hid
      have hzero := (h.served id).unknown hunknown
      refine ⟨fun _ => hzero, fun m hm => ?_, (h.served id).answers, (h.served id).logins⟩
      rw [Room.hear, Room.member_setMember, if_pos rfl] at hm
      obtain rfl := Option.some.inj hm
      rw [hzero]
      rfl
    · refine (h.served id).congr (fun hp => ?_) (fun m hm => ?_) rfl
      · dsimp only [Job.advance] at hp
        rwa [Function.update_of_ne hid] at hp
      · rwa [Room.hear, Room.member_setMember, if_neg hid] at hm
  | message sessionID m time =>
    obtain ⟨asked, asking, answers, answering, -, hconveys⟩ := h.conveying sessionID
    obtain ⟨-, message, hpayload, hturn⟩ := hconveys.posted (of_decide_eq_true hposted)
    have hjoined : n.server.phase sessionID = .joined := of_decide_eq_true horder
    obtain ⟨member, hm⟩ := Option.ne_none_iff_exists'.1 ((hmember sessionID).2 hjoined)
    obtain ⟨r', hr', hanswered⟩ := Stage.answer (r := r.hear sessionID time) hm
      ((h.served sessionID).stage member hm) hturn
    refine ⟨.request sessionID message time, r', .message hpayload, hr', fun id => ?_⟩
    have hserved : Served setup id (n.server.phase id) (r.hear sessionID time)
        (n.connection id).taken := (h.served id).congr (fun hp => hp) (fun _ hm => hm) rfl
    exact hserved.answer hanswered fun hid => by
      subst hid
      exact ⟨by rw [hjoined]; decide, rfl⟩
  | leave sessionID =>
    refine ⟨.leave sessionID, _, .leave, rfl, fun id => ?_⟩
    by_cases hid : id = sessionID
    · refine (h.served id).congr (fun hp => ?_) (fun m hm => ?_) rfl
      · dsimp only [Job.advance] at hp
        rw [hid, Function.update_self] at hp
        cases hp
      · rw [Room.member_setMember, if_pos hid] at hm
        cases hm
    · refine (h.served id).congr (fun hp => ?_) (fun m hm => ?_) rfl
      · dsimp only [Job.advance] at hp
        rwa [Function.update_of_ne hid] at hp
      · rwa [Room.member_setMember, if_neg hid] at hm
  | heartbeat time =>
    exact ⟨.heartbeat time, _, .heartbeat, rfl, fun id =>
      (h.served id).congr (fun hp => hp) (fun _ hm => hm) rfl⟩

/-- **A job.** -/
theorem Serves.job (hm : setup.Matching) (h : Serves setup n r) {job : Job} {rKey : UInt8}
    {t : State} (hposted : n.posted job = true) (hst : jobs.step n.server job = some t) :
    ∃ r', Serves setup ⟨t, fun sessionID => (n.connection sessionID).answered setup sessionID job
      rKey (t.events.drop n.server.events.length)⟩ r' := by
  obtain ⟨input, r', hspeaks, hr', hserved⟩ := h.exists_input hposted hst
  obtain ⟨events, hevents, hanswers⟩ :=
    answers_step (Lts.ReachableVia.fst h.runs) (refines h.runs).mirrors hspeaks hst hr'
  have hruns : (jobs.prod chatRoom).ReachableVia (fun _ l => Speaks l.1 l.2) (t, r') :=
    h.runs.next (a := (job, input)) hspeaks (Lts.prod_step.2 ⟨hst, hr'⟩)
  refine ⟨r', hruns, hserved, fun sessionID => ?_⟩
  obtain ⟨asked, asking, answers, answering, hall, hconveys⟩ := h.conveying sessionID
  obtain ⟨ms, hms, hto⟩ := hanswers.sent sessionID
  have htaken : (n.connection sessionID).taken + Connection.takes sessionID job ≤ asked.length := by
    cases job with
    | message id m time =>
      rw [Connection.takes]
      split_ifs with hid
      · subst hid
        exact (hconveys.posted (of_decide_eq_true hposted)).1
      · exact hconveys.taken
    | join | leave | heartbeat => exact hconveys.taken
  dsimp only
  rw [hevents, List.drop_left]
  refine ⟨asked, asking, answers, answering ++ ms.map fun m => (rKey, m), ?_,
    hconveys.answered hm hto rKey htaken⟩
  rw [← List.append_assoc, List.map_append, hall, hms, List.map_map]
  congr 1
  exact List.map_id ms

theorem serves_init (hm : setup.Matching) (h : (network setup memory).init n) :
    Serves setup n .empty := by
  obtain ⟨hserver, hfresh⟩ := h
  refine ⟨.start ⟨hserver, rfl⟩, fun sessionID => ⟨fun _ => (hfresh sessionID).taken,
    fun m hm => (nomatch hm), fun m hm => absurd hm List.not_mem_nil, ?_⟩,
    fun sessionID => ⟨[], [], [], [], rfl, ?_⟩⟩
  · rw [(hfresh sessionID).taken]
    rfl
  · obtain ⟨hsock, hstate, hsend, hrecv, -, hactive, htotal, hup, hreceiver, htaken, hdown⟩ :=
      hfresh sessionID
    refine ⟨?_, ?_, ⟨fun i m hi => (nomatch hi), ?_, fun _ => ?_, ?_, htotal⟩, htaken.le⟩
    · rw [hreceiver, hup, hsend]
      exact Delivery.passes_start (frames_up hm) _
    · rw [hrecv, hdown]
      exact Carried.start (frames_down hm)
    · rw [Standing, hstate]
      exact ⟨rfl, hsend⟩
    · rw [hstate]
      rfl
    · rw [hstate]
      exact hactive

/-- **One step of the system.** -/
theorem Serves.step (hm : setup.Matching) (h : Serves setup n r) {l : Label}
    (hwithin : within n l = true)
    (hst : n.step setup l = some n') : ∃ r', Serves setup n' r' := by
  cases l with
  | act sessionID a =>
    obtain ⟨d, hd, rfl⟩ := Option.map_eq_some_iff.1 hst
    obtain ⟨hconveying, htaken⟩ := (h.conveying sessionID).step hm (h.served sessionID)
      (fun k hk => by
        subst hk
        exact hwithin) hd
    refine ⟨r, h.runs, fun id => ?_, fun id => ?_⟩
    · by_cases hid : id = sessionID
      · subst hid
        dsimp only
        rw [Function.update_self, htaken]
        exact h.served id
      · dsimp only
        rw [Function.update_of_ne hid]
        exact h.served id
    · by_cases hid : id = sessionID
      · subst hid
        dsimp only
        rw [Function.update_self]
        exact hconveying
      · dsimp only
        rw [Function.update_of_ne hid]
        exact h.conveying id
  | job job rKey =>
    obtain ⟨hposted, hst⟩ := Option.ite_none_right_eq_some.1 hst
    obtain ⟨t, ht, rfl⟩ := Option.map_eq_some_iff.1 hst
    exact h.job hm hposted ht

theorem exists_serves (hm : setup.Matching)
    (h : (network setup memory).ReachableVia (fun n l => within n l = true) n) :
    ∃ r, Serves setup n r :=
  h.invariant (I := fun n => ∃ r, Serves setup n r) (fun _ h0 => ⟨_, serves_init hm h0⟩)
    fun _ _ _ ⟨_, hr⟩ hok hst => hr.step hm hok hst

/-- **The dummy clients and the server talk as members and room.** In every run: the requests that
the server gets from a session are a dialog; `Crash` is not reached, and nobody is killed for what
it has sent; the receive buffer of a session is never full, and what it receives never overruns
`tmpPacket`; a session that is active and that the room has as a member is logged in under its own
account; it is counted as active once; and it has counted the chat messages among the first packets
that the room has sent to it. -/
theorem network_refined (hm : setup.Matching)
    (h : (network setup memory).ReachableVia (fun n l => within n l = true) n) :
    ∃ r, (jobs.prod chatRoom).ReachableVia (fun _ l => Speaks l.1 l.2) (n.server, r) ∧
      Safe n.server.events ∧ ∀ sessionID,
        (killed n.server.events).count sessionID = r.dropped sessionID ∧
        (∃ requests : List Message, Dialog (setup.globalIdx sessionID) requests ∧
          (n.connection sessionID).receiver.outputs = requests.map fun m => .onRecv m.encoded) ∧
        (n.connection sessionID).receiver.crashed = false ∧
        (n.connection sessionID).client.recvBuf.length < sizeofBuf ∧
        ((n.connection sessionID).client.selected = true → ∀ chances result,
          (n.connection sessionID).client.receivable (n.connection sessionID).downstream result =
            true → ((n.connection sessionID).client.handleRecv setup.ctx chances result).isSome) ∧
        ((n.connection sessionID).client.state = .kActive → ∀ m, r.member sessionID = some m →
          ∃ sector, m = .loggedIn (profileOf (setup.globalIdx sessionID)) sector) ∧
        (n.connection sessionID).client.added.active =
          (if (n.connection sessionID).client.state = .kActive then 1 else 0) ∧
        ∃ handled, handled <+: r.received sessionID ∧
          (n.connection sessionID).client.added.totalRecv = handled.countP isResMessage := by
  obtain ⟨r, hr⟩ := exists_serves hm h
  have hrefines := refines hr.runs
  refine ⟨r, hr.runs, hrefines.safe, fun sessionID => ⟨hrefines.dropped sessionID, ?_⟩⟩
  have hserved := hr.served sessionID
  have hsome (hselected : (n.connection sessionID).client.selected = true) (chances : ℕ → Chance)
      (result : RecvResult) (hresult : (n.connection sessionID).client.receivable
        (n.connection sessionID).downstream result = true) :=
    (hr.conveying sessionID).isSome_handleRecv hm hserved hselected hresult chances
  obtain ⟨asked, asking, answers, answering, hall, hconveys⟩ := hr.conveying sessionID
  have hhandled : answers.map Prod.snd <+: r.received sessionID := by
    rw [← hall, List.map_append]
    exact List.prefix_append ..
  refine ⟨⟨asked.map Prod.snd, fun i m hi => ?_, ?_⟩, hconveys.up.crashed,
    hconveys.length_recvBuf hm fun b hb => hserved.answers b.2 ?_, hsome,
    fun hactive m hmember => ?_,
    hconveys.talks.active, answers.map Prod.snd, hhandled, hconveys.talks.totalRecv⟩
  · refine hconveys.talks.dialog i m ?_
    rw [List.map_append, List.getElem?_append_left (List.getElem?_eq_some_iff.1 hi).1, hi]
  · rw [hconveys.up.outputs, List.map_map]
    rfl
  · rw [← hall]
    exact List.mem_map_of_mem (List.mem_append_right _ hb)
  · have hlogins := hconveys.talks.logins (by rw [hactive]; decide)
    rw [if_pos hactive] at hlogins
    have hle := hhandled.sublist.countP_le (p := isResLogin)
    rw [hlogins, hserved.logins] at hle
    have hstage := hserved.stage m hmember
    cases htaken : (n.connection sessionID).taken with
    | zero =>
      rw [htaken, if_pos rfl] at hle
      omega
    | succ k =>
      rw [htaken] at hstage
      cases k with
      | zero => exact ⟨none, hstage⟩
      | succ k =>
        obtain ⟨sector, rfl⟩ := hstage
        exact ⟨some sector, rfl⟩

/-- Encoders with their defaults, and no random disconnects. -/
def Setup.plain : Setup where
  ctx := ⟨1000, 0, 0, {}, fun h => absurd rfl h⟩
  enc := {}
  pool := fun _ => ⟨.new 1024 fun _ => 0, Delivery.bufferSize_zeros⟩
  globalIdx := fun sessionID => ⟨sessionID.toNat % 2 ^ 31, Nat.mod_lt _ (Nat.two_pow_pos 31)⟩

theorem matching_plain : Setup.plain.Matching := ⟨rfl, rfl, .inr (by decide), .inr (by decide)⟩

/-- A session that has just been connected. -/
def ClientSession.fresh : ClientSession where
  sock := true
  state := .kConnected
  accountNo := 0
  sectorX := 0
  sectorY := 0
  sendBuf := []
  recvBuf := []
  lastHeartbeat := 0
  lastMessage := 0
  disconnectAt := 0
  reconnectAt := 0
  messagesSent := 0
  messagesRecv := 0
  added := ⟨1, 0, 0, 0, 0, 0⟩

def Network.fresh : Network :=
  ⟨.empty, fun _ => ⟨.fresh, [], Receive.initSession fun _ => 0, 0, []⟩⟩

theorem init_fresh (setup : Setup) : (network setup fun _ _ => 0).init .fresh :=
  ⟨init_empty, fun _ => ⟨rfl, rfl, rfl, rfl, rfl, rfl, rfl, rfl, rfl, rfl, rfl⟩⟩

/-- What `rand` and the clock return is 0. -/
def Chance.zero : Chance := ⟨0, 0, 0, 0, 0, 0, fun _ => 0⟩

/-- A part of the login has arrived. -/
theorem network_refined_part : ∃ n,
    (network .plain fun _ _ => 0).ReachableVia (fun n l => within n l = true) n ∧
    (n.connection 1).upstream.length = 40 ∧ (n.connection 1).client.added.active = 0 ∧
    Safe n.server.events := by
  obtain ⟨n, hn, hp⟩ := Lts.exists_reachableVia_of_run (c := within) (fun _ _ h => h)
    (init_fresh .plain)
    [.job (.join 1 0 0) 0, .act 1 (.periodic 0 (fun _ => .zero) .noSocket),
      .act 1 (.handleSend (some 100)), .act 1 (.deliver 60)]
    (p := fun n => (n.connection 1).upstream.length = 40 ∧
      (n.connection 1).client.state = .kLoginSent) (by decide +kernel)
  obtain ⟨hup, hstate⟩ := of_decide_eq_true hp
  obtain ⟨r, -, hsafe, hall⟩ := network_refined matching_plain hn
  obtain ⟨-, -, -, -, -, -, hactive, -⟩ := hall 1
  rw [hstate] at hactive
  exact ⟨n, hn, hup, hactive, hsafe⟩

end NetworkLibrary.ChatDummyClient
