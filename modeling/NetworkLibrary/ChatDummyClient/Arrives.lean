import NetworkLibrary.ChatDummyClient.Network

/-!
# Everything arrives

As long as nobody gives up a connection and no session is to be disconnected at random, all sessions
stay connected (`live_of_reachable`). What is under way at a connection can always be carried on
(`exists_forwards`), and once nothing is, the session is logged in, is in a sector, and has counted
every chat message that the room has had for it (`all_counted`).
-/

namespace NetworkLibrary.ChatDummyClient

open Foundations ChatServer ClientSession
open Receive (fitsBehind receiving recvHandler)
open Delivery (Fitting)

/-- A completion fits behind `Rear`, and nobody gives up a connection. -/
def undisturbed (n : Network) : Label → Bool
  | .act sessionID (.deliver k) =>
    fitsBehind (n.connection sessionID).receiver ((n.connection sessionID).upstream.take k)
  | .act _ (.handleSend result) => result.isSome
  | .act _ (.handleRecv _ .closed) => false
  | .act _ .killSession => false
  | .job (.leave _) _ => false
  | _ => true

/-- The step carries on what is under way at the connection of the session. -/
def Label.Forwards (sessionID : UInt64) : Label → Prop
  | .act id (.handleSend (some k)) => id = sessionID ∧ 0 < k
  | .act id (.deliver k) => id = sessionID ∧ 0 < k
  | .act id (.handleRecv _ (.bytes _)) => id = sessionID
  | .job (.message id ..) _ => id = sessionID
  | _ => False

/-- Nothing is under way: all bytes have arrived, and all messages have been handled. -/
structure Connection.AtRest (c : Connection) : Prop where
  sendBuf : c.client.sendBuf = []
  upstream : c.upstream = []
  taken : c.taken = c.receiver.outputs.length
  downstream : c.downstream = []

/-- Both ends use the connection, and the client is not going to give it up. -/
structure Live (c : Connection) : Prop where
  sock : c.client.sock = true
  state : c.client.state ≠ .kDisconnected
  disconnectAt : c.client.disconnectAt = 0
  use : c.receiver.sessionUseFlag = true

variable {setup : Setup} {memory : UInt64 → ℤ → UInt8} {n n' : Network} {r : Room} {l : Label}
  {sessionID : UInt64} {c d : Connection} {s : ClientSession}

theorem within_of_undisturbed (n : Network) (l : Label) (h : undisturbed n l = true) :
    within n l = true := by
  cases l with
  | job => rfl
  | act sessionID a =>
    cases a with
    | deliver k => exact h
    | _ => rfl

/-! ## The connections stay -/

/-- A turn of the worker does not end the connection. -/
theorem periodic_live (ctx : WorkerContext) (globalIdx : Fin (2 ^ 31)) (now : UInt32)
    (chances : ℕ → Chance) (result : ConnectResult) (hstate : s.state ≠ .kDisconnected)
    (hzero : s.disconnectAt = 0) :
    (s.periodic ctx globalIdx now chances result).sock = s.sock ∧
      (s.periodic ctx globalIdx now chances result).state ≠ .kDisconnected ∧
      (s.periodic ctx globalIdx now chances result).disconnectAt = 0 := by
  rw [ClientSession.periodic]
  cases hs : s.state with
  | kIdle | kConnecting | kLoginSent => exact ⟨rfl, hstate, hzero⟩
  | kDisconnected => exact absurd hs hstate
  | kConnected =>
    dsimp only
    rw [sendLoginPacket_eq]
    split_ifs
    · exact ⟨rfl, SessionState.noConfusion, hzero⟩
    · exact ⟨rfl, hstate, hzero⟩
  | kActive =>
    dsimp only
    rw [if_neg fun h => h.1 hzero, sendChatPacket_eq]
    simp only [sendHeartbeatPacket_eq]
    split_ifs <;> exact ⟨rfl, hstate, hzero⟩

/-- **One step of a connection** that nobody gives up. -/
theorem Live.step (hm : setup.Matching) (hlife : setup.ctx.minLifetimeMs = 0) (h : Live c)
    {phase : ChatServer.Phase} (hconveying : Conveying setup sessionID c (r.received sessionID))
    (hserved : Served setup sessionID phase r c.taken) {a : Act}
    (hundisturbed : undisturbed n (.act sessionID a) = true) (hc : n.connection sessionID = c)
    (hst : c.step setup sessionID a = some d) : Live d := by
  cases a with
  | periodic now chances result =>
    obtain ⟨-, hst⟩ := Option.ite_none_right_eq_some.1 hst
    obtain rfl := Option.some.inj hst
    obtain ⟨hsock, hstate, hzero⟩ := periodic_live setup.ctx (setup.globalIdx sessionID) now chances
      result h.state h.disconnectAt
    exact ⟨hsock.trans h.sock, hstate, hzero, h.use⟩
  | handleSend result =>
    obtain ⟨-, hst⟩ := Option.ite_none_right_eq_some.1 hst
    obtain rfl := Option.some.inj hst
    obtain ⟨k, rfl⟩ := Option.isSome_iff_exists.1 hundisturbed
    exact ⟨h.sock, h.state, h.disconnectAt, h.use⟩
  | handleRecv chances result =>
    obtain ⟨⟨hselected, hreceivable⟩, hst⟩ := Option.ite_none_right_eq_some.1 hst
    obtain ⟨client, hclient, rfl⟩ := Option.map_eq_some_iff.1 hst
    cases result with
    | wouldBlock =>
      rw [ClientSession.handleRecv, if_neg (not_le.2 (hconveying.length_recvBuf hm hserved))]
        at hclient
      obtain rfl := Option.some.inj hclient
      exact ⟨h.sock, h.state, h.disconnectAt, h.use⟩
    | closed => cases hundisturbed
    | bytes bytes =>
      obtain ⟨_, _, t, new, left, hhandled, heq, -⟩ :=
        hconveying.handleRecv hm hserved hselected hreceivable chances
      obtain rfl := Option.some.inj (heq.symm.trans hclient)
      exact ⟨hhandled.sock.trans h.sock, hhandled.live, hhandled.stays hlife h.disconnectAt, h.use⟩
  | deliver k =>
    obtain ⟨-, hst⟩ := Option.ite_none_right_eq_some.1 hst
    obtain ⟨receiver, hr, rfl⟩ := Option.map_eq_some_iff.1 hst
    obtain ⟨-, hhandler⟩ := Receive.receiving_step hr
    obtain ⟨asked, asking, answers, answering, -, hconveys⟩ := hconveying
    obtain ⟨-, -, huse⟩ := hconveys.deliver hm (hc ▸ hundisturbed) hhandler
    exact ⟨h.sock, h.state, h.disconnectAt, huse.trans h.use⟩
  | killSession => cases hundisturbed

/-- The sessions of the network are connected, and none has left. -/
structure Stays (n : Network) : Prop where
  live : ∀ sessionID, Live (n.connection sessionID)
  phase : ∀ sessionID, n.server.phase sessionID ≠ .left

theorem stays_init (h : (network setup memory).init n) : Stays n := by
  obtain ⟨⟨-, -, -, hphase, -⟩, hfresh⟩ := h
  refine ⟨fun id => ⟨(hfresh id).sock, ?_, (hfresh id).disconnectAt, ?_⟩, fun id => ?_⟩
  · rw [(hfresh id).state]
    decide
  · rw [(hfresh id).receiver]
    rfl
  · rw [hphase id]
    decide

theorem Stays.step (hm : setup.Matching) (hlife : setup.ctx.minLifetimeMs = 0) (h : Stays n)
    (hserves : Serves setup n r) (hundisturbed : undisturbed n l = true)
    (hst : n.step setup l = some n') : Stays n' := by
  cases l with
  | act sessionID a =>
    obtain ⟨d, hd, rfl⟩ := Option.map_eq_some_iff.1 hst
    have hlive := (h.live sessionID).step hm hlife (hserves.conveying sessionID)
      (hserves.served sessionID) hundisturbed rfl hd
    refine ⟨fun id => ?_, h.phase⟩
    dsimp only
    by_cases hid : id = sessionID
    · subst hid
      rwa [Function.update_self]
    · rw [Function.update_of_ne hid]
      exact h.live id
  | job job rKey =>
    obtain ⟨-, hst⟩ := Option.ite_none_right_eq_some.1 hst
    obtain ⟨t, ht, rfl⟩ := Option.map_eq_some_iff.1 hst
    obtain ⟨-, -, server, events, -, rfl⟩ := step_eq_some.1 ht
    refine ⟨fun id => ⟨(h.live id).sock, (h.live id).state, (h.live id).disconnectAt,
      (h.live id).use⟩, fun id => ?_⟩
    cases job with
    | join sessionID character time =>
      dsimp only [Job.advance]
      rw [Function.update_apply]
      split_ifs
      · decide
      · exact h.phase id
    | leave sessionID => cases hundisturbed
    | message | heartbeat => exact h.phase id

theorem exists_serves_of_undisturbed (hm : setup.Matching) (hlife : setup.ctx.minLifetimeMs = 0)
    (h : (network setup memory).ReachableVia (fun n l => undisturbed n l = true) n) :
    (∃ r, Serves setup n r) ∧ Stays n := by
  refine ⟨exists_serves hm (h.mono within_of_undisturbed), ?_⟩
  refine h.invariant₂ (J := fun n => ∃ r, Serves setup n r)
    (fun h => exists_serves hm (h.mono within_of_undisturbed)) (fun n h0 => stays_init h0) ?_
  rintro n l n' ⟨r, hr⟩ - hstays hok hst
  exact hstays.step hm hlife hr hok hst

/-! ## At rest -/

/-- Nothing is under way: every request has been handled, and every answer. -/
theorem Conveying.of_atRest (hm : setup.Matching)
    (h : Conveying setup sessionID c (r.received sessionID))
    (hanswers : ∀ m ∈ r.received sessionID, Answer m) (hrest : c.AtRest) :
    ∃ sent, Talks (setup.globalIdx sessionID) c.client sent (r.received sessionID) ∧
      sent.length = c.taken := by
  obtain ⟨asked, asking, answers, answering, hall, h⟩ := h
  have hup := h.up.carried
  rw [hrest.upstream, hrest.sendBuf] at hup
  have hdown := h.down
  rw [hrest.downstream] at hdown
  obtain rfl := hup.eq_nil (frames_up hm) fun b hb =>
    h.fitting_asking b (List.mem_append_right _ hb)
  obtain rfl := hdown.eq_nil (frames_down hm) fun b hb =>
    (hanswers b.2 (hall ▸ List.mem_map_of_mem (List.mem_append_right _ hb))).fitting
  have htalks := h.talks
  rw [List.append_nil] at hall htalks
  rw [hall] at htalks
  refine ⟨_, htalks, ?_⟩
  rw [List.length_map, hrest.taken, h.up.outputs, List.length_map]

/-- **Everything is counted.** As long as nobody gives up a connection, a session that has had a
turn of its worker, and at which nothing is under way, is active; it is logged in under its own
account and in a sector; and it has counted every chat message that the room has had for it. -/
theorem all_counted (hm : setup.Matching) (hlife : setup.ctx.minLifetimeMs = 0)
    (h : (network setup memory).ReachableVia (fun n l => undisturbed n l = true) n) :
    ∃ r, (jobs.prod chatRoom).ReachableVia (fun _ l => Speaks l.1 l.2) (n.server, r) ∧
      ∀ sessionID, (n.connection sessionID).AtRest →
        (n.connection sessionID).client.state ≠ .kConnected →
        (n.connection sessionID).client.state = .kActive ∧
        (∃ sector, r.member sessionID =
          some (.loggedIn (profileOf (setup.globalIdx sessionID)) (some sector))) ∧
        (n.connection sessionID).client.added.totalRecv =
          (r.received sessionID).countP isResMessage := by
  obtain ⟨⟨r, hr⟩, hstays⟩ := exists_serves_of_undisturbed hm hlife h
  refine ⟨r, hr.runs, fun sessionID hrest hturn => ?_⟩
  have hserved := hr.served sessionID
  obtain ⟨sent, htalks, hlen⟩ := (hr.conveying sessionID).of_atRest hm hserved.answers hrest
  have hlogins := htalks.logins (hstays.live sessionID).state
  have hstanding := htalks.standing
  rw [hserved.logins] at hlogins
  rw [Standing, hlen] at hstanding
  have hactive : (n.connection sessionID).client.state = .kActive := by
    cases hstate : (n.connection sessionID).client.state with
    | kActive => rfl
    | kConnected => exact absurd hstate hturn
    | kDisconnected => exact absurd hstate (hstays.live sessionID).state
    | kIdle | kConnecting => simp only [hstate] at hstanding
    | kLoginSent =>
      -- the login has been handled, so that its answer has arrived
      simp only [hstate] at hstanding
      rw [hstanding.1, hstate, if_neg (by decide), if_neg (by decide)] at hlogins
      cases hlogins
  simp only [hactive] at hstanding
  refine ⟨hactive, ?_, htalks.totalRecv⟩
  obtain ⟨k, hk⟩ := Nat.exists_eq_add_of_le' hstanding.1
  have hjoined : n.server.phase sessionID = .joined := by
    cases hphase : n.server.phase sessionID with
    | joined => rfl
    | left => exact absurd hphase (hstays.phase sessionID)
    | unknown =>
      rw [hserved.unknown hphase] at hk
      cases hk
  have hmember : r.member sessionID ≠ none := (member_ne_none_iff hr.runs).2 hjoined
  obtain ⟨m, hm'⟩ := Option.ne_none_iff_exists'.1 hmember
  have hstage := hserved.stage m hm'
  rw [hk] at hstage
  obtain ⟨sector, rfl⟩ := hstage
  exact ⟨sector, hm'⟩

/-- A job for a message, if it fits. -/
def jobOf (sessionID : UInt64) (m : Message) : Job :=
  if h : m.encoded.length ≤ 1004 then .message sessionID (.ofList m.encoded h) 0 else .heartbeat 0

/-- A session logs in and goes to a sector. -/
def arrival : List Label :=
  [.job (.join 1 0 0) 0, .act 1 (.periodic 0 (fun _ => .zero) .noSocket),
    .act 1 (.handleSend (some 159)), .act 1 (.deliver 159), .job (jobOf 1 (loginRequest 1)) 0,
    .act 1 (.handleRecv (fun _ => .zero)
      (.bytes (frameOf {} (0, .resLogin 1 (accountNoOf 1))))),
    .act 1 (.handleSend (some 19)), .act 1 (.deliver 19),
    .job (jobOf 1 (moveRequest (accountNoOf 1) .zero)) 0,
    .act 1 (.handleRecv (fun _ => .zero)
      (.bytes (frameOf {} (0, .resSectorMove (accountNoOf 1) 0 0))))]

theorem all_counted_arrival : ∃ n : Network, (n.connection 1).AtRest ∧
    (n.connection 1).client.state = .kActive ∧
    ∃ r, (jobs.prod chatRoom).ReachableVia (fun _ l => Speaks l.1 l.2) (n.server, r) ∧
      ∃ sector, r.member 1 = some (.loggedIn (profileOf 1) (some sector)) := by
  obtain ⟨n, hn, hp⟩ := Lts.exists_reachableVia_of_run (c := undisturbed) (fun _ _ h => h)
    (init_fresh .plain) arrival
    (p := fun n => ((n.connection 1).client.sendBuf = [] ∧ (n.connection 1).upstream = [] ∧
      (n.connection 1).taken = (n.connection 1).receiver.outputs.length ∧
      (n.connection 1).downstream = []) ∧ (n.connection 1).client.state ≠ .kConnected)
    (by decide +kernel)
  obtain ⟨⟨hsend, hup, htaken, hdown⟩, hturn⟩ := of_decide_eq_true hp
  obtain ⟨r, hr, hall⟩ := all_counted matching_plain rfl hn
  obtain ⟨hactive, hmember, -⟩ := hall 1 ⟨hsend, hup, htaken, hdown⟩ hturn
  exact ⟨n, ⟨hsend, hup, htaken, hdown⟩, hactive, r, hr, hmember⟩

/-! ## Progress -/

/-- The message that `OnRecv` has got next can be handled. -/
theorem exists_job (hr : Serves setup n r) (hjoined : n.server.phase sessionID = .joined)
    {payload : List UInt8} (hposted :
      (n.connection sessionID).receiver.outputs[(n.connection sessionID).taken]? =
        some (.onRecv payload)) :
    ∃ m n', n.step setup (.job (.message sessionID m 0) 0) = some n' := by
  obtain ⟨asked, asking, answers, answering, -, h⟩ := hr.conveying sessionID
  obtain ⟨-, m, rfl, hturn⟩ := h.posted hposted
  refine ⟨⟨setup.pool 0, m.encoded, hturn.fitting.2⟩, ?_⟩
  have hcrash : .crash ∉ n.server.events := fun hc => not_safe_of_crash hc (refines hr.runs).safe
  have hst : ∃ t, jobs.step n.server
      (.message sessionID ⟨setup.pool 0, m.encoded, hturn.fitting.2⟩ 0) = some t :=
    ⟨_, step_eq_some.2 ⟨hcrash, decide_eq_true hjoined, _, _, rfl, rfl⟩⟩
  obtain ⟨t, ht⟩ := hst
  have hnext : n.posted (.message sessionID ⟨setup.pool 0, m.encoded, hturn.fitting.2⟩ 0) = true :=
    decide_eq_true hposted
  rw [Network.step, if_pos hnext, ht]
  exact ⟨_, rfl⟩

theorem exists_act {a : Act}
    (h : ∃ d, (n.connection sessionID).step setup sessionID a = some d) :
    ∃ n', n.step setup (.act sessionID a) = some n' := by
  obtain ⟨d, hd⟩ := h
  rw [Network.step, hd]
  exact ⟨_, rfl⟩

/-- **Nothing gets stuck.** As long as nobody gives up a connection, what is under way at the
connection of a session that has joined can be carried on. -/
theorem exists_forwards (hm : setup.Matching) (hlife : setup.ctx.minLifetimeMs = 0)
    (h : (network setup memory).ReachableVia (fun n l => undisturbed n l = true) n)
    (hjoined : n.server.phase sessionID = .joined) (hrest : ¬(n.connection sessionID).AtRest) :
    ∃ l, undisturbed n l = true ∧ l.Forwards sessionID ∧
      ∃ n', (network setup memory).step n l = some n' := by
  obtain ⟨⟨r, hr⟩, hstays⟩ := exists_serves_of_undisturbed hm hlife h
  have hlive := hstays.live sessionID
  have hserved := hr.served sessionID
  have hselected : (n.connection sessionID).client.selected = true :=
    decide_eq_true ⟨hlive.sock, hlive.state⟩
  by_cases hsend : (n.connection sessionID).client.sendBuf = []
  swap
  · have hpos := List.length_pos_iff.2 hsend
    refine ⟨.act sessionID (.handleSend (some 1)), rfl, ⟨rfl, by decide⟩, exists_act ?_⟩
    rw [Connection.step, if_pos ⟨hselected, hpos⟩]
    exact ⟨_, rfl⟩
  by_cases hup : (n.connection sessionID).upstream = []
  swap
  · obtain ⟨asked, asking, answers, answering, -, hconveys⟩ := hr.conveying sessionID
    have hpasses := hconveys.up
    rw [hsend, List.append_nil] at hpasses
    obtain ⟨receiver, hreceiver, hfit⟩ := hpasses.exists_deliver setup.pool (frames_up hm)
      (fun b hb => hconveys.fitting_asking b (List.mem_append_right _ hb))
      (fun b hb => Delivery.length_frame_of_fitting hb) hup hlive.use
    refine ⟨.act sessionID (.deliver 1), hfit, ⟨rfl, by decide⟩, exists_act ?_⟩
    rw [Connection.step, if_pos (Nat.succ_le_of_lt (List.length_pos_iff.2 hup)), hreceiver]
    exact ⟨_, rfl⟩
  by_cases hdown : (n.connection sessionID).downstream = []
  swap
  · obtain ⟨byte, rest, hcons⟩ := List.exists_cons_of_ne_nil hdown
    have hroom := (hr.conveying sessionID).length_recvBuf hm hserved
    have hreceivable : (n.connection sessionID).client.receivable
        (n.connection sessionID).downstream (.bytes [byte]) = true := by
      simp only [receivable, decide_eq_true_eq, List.isPrefixOf_iff_prefix, hcons]
      exact ⟨⟨List.cons_ne_nil _ _, rest, rfl⟩, hroom⟩
    obtain ⟨client, hclient⟩ := Option.isSome_iff_exists.1
      ((hr.conveying sessionID).isSome_handleRecv hm hserved hselected hreceivable fun _ => .zero)
    refine ⟨.act sessionID (.handleRecv (fun _ => .zero) (.bytes [byte])), rfl, rfl, exists_act ?_⟩
    rw [Connection.step, if_pos ⟨hselected, hreceivable⟩, hclient]
    exact ⟨_, rfl⟩
  · -- only a message can be left that has not been handled
    obtain ⟨asked, asking, answers, answering, -, hconveys⟩ := hr.conveying sessionID
    have hlt : (n.connection sessionID).taken < asked.length := by
      refine lt_of_le_of_ne hconveys.taken fun heq => hrest ⟨hsend, hup, ?_, hdown⟩
      rw [heq, hconveys.up.outputs, List.length_map]
    have hposted : (n.connection sessionID).receiver.outputs[(n.connection sessionID).taken]? =
        some (.onRecv asked[(n.connection sessionID).taken].2.encoded) := by
      rw [hconveys.up.outputs, List.getElem?_map, List.getElem?_eq_getElem hlt, Option.map_some]
    obtain ⟨m, hst⟩ := exists_job hr hjoined hposted
    exact ⟨.job (.message sessionID m 0) 0, rfl, rfl, hst⟩

/-- The login has been put into `sendBuf`, and can be sent. -/
theorem exists_forwards_login : ∃ n : Network, (n.connection 1).client.state = .kLoginSent ∧
    ∃ l, undisturbed n l = true ∧ l.Forwards 1 ∧
      ∃ n', (network .plain fun _ _ => 0).step n l = some n' := by
  obtain ⟨n, hn, hp⟩ := Lts.exists_reachableVia_of_run (c := undisturbed) (fun _ _ h => h)
    (init_fresh .plain) [.job (.join 1 0 0) 0, .act 1 (.periodic 0 (fun _ => .zero) .noSocket)]
    (p := fun n => (n.server.phase 1 = .joined ∧ (n.connection 1).client.sendBuf ≠ []) ∧
      (n.connection 1).client.state = .kLoginSent) (by decide +kernel)
  obtain ⟨⟨hjoined, hsend⟩, hstate⟩ := of_decide_eq_true hp
  exact ⟨n, hstate, exists_forwards matching_plain rfl hn hjoined fun h => hsend h.sendBuf⟩

end NetworkLibrary.ChatDummyClient
