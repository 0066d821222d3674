import NetworkLibrary.Delivery.Receiver
import NetworkLibrary.Send.Capacity
import NetworkLibrary.Send.WakeUp

/-!
# One direction of a connection

The send side of one end, the bytes that the connection carries, and the receive side of the other
end. A successful `WSASend` writes the wire bytes of its packets into the connection, in their
order; a receive completes with any number of the bytes that have not been delivered yet, at most as
many as it was posted for. Both ends may be killed at any moment.

* `received_in_order`: what the receiver passes to `OnRecv` are the payloads of the first packets
  that were enqueued, in the order in which they were enqueued;
* `received_all`: when nobody is at work and nothing is in flight, that is every packet.
-/

namespace NetworkLibrary.Delivery

open Foundations Receive XorPacketEncoder

/-- One direction of a connection. -/
structure Link where
  sender : Threads Send.SendSide Send.Frame
  /-- The bytes sent and not delivered. -/
  inFlight : List UInt8
  receiver : RecvSide

inductive Act
  /-- A thread of the sending end executes a statement. -/
  | send (thread : ℕ) (a : Send.Act)
  /-- A receive completes. -/
  | deliver (transferred : ℕ)
  /-- A thread of the receiving end executes `SessionUseFlag = false` of `KillSession`. -/
  | killSession
  deriving DecidableEq

variable (senderEncoder enc : XorPacketEncoder) (pool : Pool) (content : ℕ → Outgoing)
  (sendBuffer : ℕ → ℕ) (memory : ℤ → UInt8)

/-- The wire bytes of packets. -/
def wires (packets : List ℕ) : List UInt8 :=
  (packets.map fun p => wire senderEncoder (content p)).flatten

/-- One step of the connection. -/
def step (l : Link) : Act → Option Link
  | .send i a => ((Send.system sendBuffer).step l.sender (i, a)).map fun t =>
    { l with
      sender := t
      inFlight := l.inFlight ++
        wires senderEncoder content (t.shared.sent.drop l.sender.shared.sent.length) }
  | .deliver n =>
    if n ≤ l.inFlight.length then
      ((receiving enc pool).step l.receiver (l.inFlight.take n)).map fun r =>
        { l with inFlight := l.inFlight.drop n, receiver := r }
    else none
  | .killSession => some { l with receiver := { l.receiver with sessionUseFlag := false } }

/-- The runs of a connection. `content` gives what is put into a packet, `memory` what the buffer
of `RecvQ` held before. -/
def link : Lts Link Act where
  init l := ∃ n, l = ⟨Threads.idle (Send.initSession sendBuffer) n, [], Receive.initSession memory⟩
  step := step senderEncoder enc pool content sendBuffer

/-- `SendPost` counts at most 1000 packets at a time, and a completion fits behind `Rear`. -/
def Within (l : Link) : Act → Prop
  | .send i a => Program.Steps Send.Fits l.sender (i, a)
  | .deliver n => fitsBehind l.receiver (l.inFlight.take n) = true
  | .killSession => True

/-- Besides, the sending end is not killed and its sends succeed. -/
def Undisturbed (l : Link) (a : Act) : Prop :=
  Within l a ∧ ∀ i b, a = .send i b → Send.Smooth l.sender (i, b)

/-- Nothing is left to do: no function of the sending end is running, it has no notification posted
and no send outstanding, and nothing is in flight. -/
structure Link.AtRest (l : Link) : Prop where
  quiet : l.sender.Quiet
  notes : l.sender.shared.notes = 0
  sends : l.sender.shared.sends = 0
  inFlight : l.inFlight = []

/-- A packet whose payload fits into a packet and is not empty. -/
def Sendable (x : Outgoing) : Prop := 1 ≤ x.payload.length ∧ x.payload.length ≤ 1004

/-- The two encoders match: the same code and key, and the receiver accepts what fits. -/
structure Matching : Prop where
  headerCode : senderEncoder.headerCode = enc.headerCode
  encryptKey : senderEncoder.encryptKey = enc.encryptKey
  limit : enc.maxPayloadLen = 0 ∨ 1004 ≤ enc.maxPayloadLen

variable {senderEncoder enc pool content sendBuffer memory} {l m : Link} {a : Act}
  {ok : Link → Act → Prop} {t u : Threads Send.SendSide Send.Frame}

/-! ## The frames on the wire -/

theorem wire_of_sendable (hm : Matching senderEncoder enc) {x : Outgoing} (hx : Sendable x) :
    wire senderEncoder x = enc.frame x.rKey x.payload := by
  rw [wire_eq hx.2, frame_congr hm.headerCode hm.encryptKey]

theorem length_wire (hm : Matching senderEncoder enc) {x : Outgoing} (hx : Sendable x) :
    (wire senderEncoder x).length ≤ 1009 := by
  rw [wire_of_sendable hm hx]
  exact length_frame_of_fitting hx

/-- The receiver's parser takes the wire bytes of packets off the stream. -/
theorem frames (hm : Matching senderEncoder enc) (content : ℕ → Outgoing) :
    Frames enc.next (fun p => wire senderEncoder (content p)) (fun p => (content p).payload)
      fun p => Sendable (content p) :=
  frames_of_fitting hm.limit (fun p => (content p).rKey) (fun _ hp => wire_of_sendable hm hp)
    fun _ hp => hp

/-! ## The steps -/

theorem exec_sent {s s' : Send.SendSide} {f : Send.Frame} {b : Send.Act} {new : List Send.Frame}
    (h : Send.exec s f b = some (s', new)) : s.sent <+: s'.sent := by
  revert h
  fun_cases Send.exec s f b <;> intro h <;> cases h <;> simp

/-- The packets sent only grow. -/
theorem sent_prefix {i : ℕ} {b : Send.Act} (h : (Send.system sendBuffer).step t (i, b) = some u) :
    t.shared.sent <+: u.shared.sent := by
  obtain ⟨pre, old, new, post, -, -, hf, -⟩ := Program.step_frames h
  cases hf with
  | call hc =>
    obtain ⟨-, -, -, -, hsent, -⟩ := Send.call_ledger hc
    rw [hsent]
  | exec he => exact exec_sent he

/-- **The cases of a step.** -/
theorem step_cases (h : (link senderEncoder enc pool content sendBuffer memory).step l a = some m) :
    (∃ i b t ps, a = .send i b ∧ (Send.system sendBuffer).step l.sender (i, b) = some t ∧
        t.shared.sent = l.sender.shared.sent ++ ps ∧
        m = ⟨t, l.inFlight ++ wires senderEncoder content ps, l.receiver⟩) ∨
      (∃ n r, a = .deliver n ∧ l.receiver.recvPost ≠ none ∧
        recvHandler enc pool l.receiver (l.inFlight.take n) = some r ∧
        m = ⟨l.sender, l.inFlight.drop n, r⟩) ∨
      a = .killSession ∧
        m = ⟨l.sender, l.inFlight, { l.receiver with sessionUseFlag := false }⟩ := by
  cases a with
  | send i b =>
    obtain ⟨t, ht, rfl⟩ := Option.map_eq_some_iff.1 h
    obtain ⟨ps, hps⟩ := sent_prefix ht
    refine .inl ⟨i, b, t, ps, rfl, ht, hps.symm, ?_⟩
    rw [← hps, List.drop_left]
  | deliver n =>
    obtain ⟨-, h⟩ := Option.ite_none_right_eq_some.1 h
    obtain ⟨r, hr, rfl⟩ := Option.map_eq_some_iff.1 h
    obtain ⟨hpost, hhandler⟩ := receiving_step hr
    exact .inr (.inl ⟨n, r, rfl, hpost, hhandler, rfl⟩)
  | killSession =>
    obtain rfl := Option.some.inj h
    exact .inr (.inr ⟨rfl, rfl⟩)

theorem recvLoop_outputs {fuel : ℕ} {s r : RecvSide} (h : recvLoop enc pool fuel s = some r) :
    s.outputs <+: r.outputs := by
  induction fuel generalizing s with
  | zero => cases h
  | succ fuel ih =>
    rw [recvLoop] at h
    split at h
    · obtain rfl := Option.some.inj h
      exact List.prefix_rfl
    · obtain rfl := Option.some.inj h
      exact List.prefix_append ..
    · split at h
      · obtain rfl := Option.some.inj h
        exact List.prefix_append ..
      · obtain rfl := Option.some.inj h
        exact List.prefix_append ..
      · exact (List.prefix_append ..).trans (ih h)

/-- The outputs of the receive side only grow. -/
theorem outputs_prefix
    (h : (link senderEncoder enc pool content sendBuffer memory).step l a = some m) :
    l.receiver.outputs <+: m.receiver.outputs := by
  rcases step_cases h with ⟨_, _, _, _, -, -, -, rfl⟩ | ⟨n, r, -, -, hr, rfl⟩ | ⟨-, rfl⟩
  · exact List.prefix_rfl
  · obtain ⟨r', hloop, rfl⟩ := Option.map_eq_some_iff.1 hr
    have hpre := recvLoop_outputs hloop
    dsimp only
    split
    · exact hpre
    · exact hpre
  · exact List.prefix_rfl

/-- The sending end runs as it does alone. -/
theorem sender_reachable (okSend : Threads Send.SendSide Send.Frame → ℕ × Send.Act → Prop)
    (hok : ∀ l i b, ok l (.send i b) → okSend l.sender (i, b))
    (h : (link senderEncoder enc pool content sendBuffer memory).ReachableVia ok l) :
    (Send.system sendBuffer).ReachableVia okSend l.sender := by
  induction h with
  | start h =>
    obtain ⟨n, rfl⟩ := h
    exact .start ⟨n, rfl⟩
  | next _ hstep hst ih =>
    rcases step_cases hst with ⟨i, b, t, ps, rfl, ht, -, rfl⟩ | ⟨n, r, -, -, -, rfl⟩ | ⟨-, rfl⟩
    · exact ih.next (hok _ i b hstep) ht
    · exact ih
    · exact ih

/-! ## What the connection carries -/

/-- The packets sent are those passed to `OnRecv` and those whose frames `RecvQ` and the connection
hold. -/
def Conveys (senderEncoder enc : XorPacketEncoder) (content : ℕ → Outgoing) (l : Link)
    (passed pending : List ℕ) : Prop :=
  Passes enc (fun p => wire senderEncoder (content p)) (fun p => (content p).payload) l.receiver
    l.sender.shared.sent passed pending l.inFlight

variable {passed pending : List ℕ}

/-- **The connection conveys the packets sent**, in every state of a run. -/
theorem conveys (hm : Matching senderEncoder enc) (hcontent : ∀ p, Sendable (content p))
    (hok : ∀ l a, ok l a → Within l a)
    (h : (link senderEncoder enc pool content sendBuffer memory).ReachableVia ok l) :
    ∃ passed pending, Conveys senderEncoder enc content l passed pending := by
  refine h.invariant (I := fun l => ∃ passed pending, Conveys senderEncoder enc content l passed
    pending) ?_ ?_
  · rintro _ ⟨n, rfl⟩
    exact ⟨[], [], passes_start (frames hm content) memory⟩
  · rintro l a m ⟨passed, pending, ih⟩ hwithin hst
    rcases step_cases hst with ⟨i, b, t, ps, -, -, hsent, rfl⟩ | ⟨n, r, rfl, -, hr, rfl⟩ |
      ⟨-, rfl⟩
    · refine ⟨passed, pending ++ ps, ?_⟩
      rw [Conveys, hsent]
      exact ih.send ps
    · rw [Conveys, ← List.take_append_drop n l.inFlight] at ih
      obtain ⟨k, hnext, -⟩ := ih.deliver (frames hm content) (fun _ hp => hp)
        (fun p _ => hcontent p) (hok _ _ hwithin) hr
      exact ⟨_, _, hnext⟩
    · exact ⟨passed, pending, ih.killSession⟩

/-- **The next byte can be delivered.** -/
theorem Conveys.exists_deliver (hm : Matching senderEncoder enc)
    (hcontent : ∀ p, Sendable (content p))
    (h : Conveys senderEncoder enc content l passed pending) (hne : l.inFlight ≠ [])
    (huse : l.receiver.sessionUseFlag = true) :
    ∃ m, (link senderEncoder enc pool content sendBuffer memory).step l (.deliver 1) = some m ∧
      Within l (.deliver 1) := by
  obtain ⟨r, hr, hfit⟩ := Passes.exists_deliver pool (frames hm content) h
    (fun p _ => hcontent p) (fun _ hp => length_wire hm hp) hne huse
  refine ⟨⟨l.sender, l.inFlight.drop 1, r⟩, ?_, hfit⟩
  simp only [link, step]
  rw [if_pos (show 1 ≤ l.inFlight.length from List.length_pos_iff.2 hne), hr]
  rfl

/-! ## End to end -/

/-- Every packet enqueued has been sent when nobody is left who would look at `Size`. -/
theorem enqueued_eq_sent (h : (Send.system sendBuffer).ReachableVia Send.Smooth t) (hq : t.Quiet)
    (hnotes : t.shared.notes = 0) (hsends : t.shared.sends = 0) :
    t.shared.enqueued = t.shared.sent := by
  obtain ⟨-, hheld, hlooked⟩ := Send.awake h
  have hlen := Send.queue_length_eq h
  have hnonneg := (Send.covered h).nonneg
  rw [Threads.Quiet] at hq
  rw [hq, tally_nil] at hlooked hlen
  rw [Send.tokens, hq, tally_nil] at hheld
  have hqueue : t.shared.queue = [] := List.length_eq_zero_iff.1 (by omega)
  have hclear : t.shared.sendFlag = false := by
    by_contra hset
    have := hheld (by simpa using hset)
    omega
  have hholds := (Send.ledger h).clear hclear
  rwa [Send.SendSide.Holds, hqueue, List.append_nil, List.append_nil] at hholds

/-- What has been received, by what has been enqueued. -/
theorem Conveys.outputs_take (hm : Matching senderEncoder enc)
    (hcontent : ∀ p, Sendable (content p))
    (h : Conveys senderEncoder enc content l passed pending)
    (hsent : l.sender.shared.sent <+: l.sender.shared.enqueued) :
    ∃ k ≤ l.sender.shared.sent.length,
      l.receiver.outputs =
        (l.sender.shared.enqueued.take k).map (fun p => .onRecv (content p).payload) ∧
      (l.inFlight = [] → k = l.sender.shared.sent.length) := by
  have hpre : passed <+: l.sender.shared.sent := h.carried.sent ▸ List.prefix_append ..
  refine ⟨passed.length, hpre.length_le, ?_, fun hnil => ?_⟩
  · rw [← List.prefix_iff_eq_take.1 (hpre.trans hsent)]
    exact h.outputs
  · have hcarried := h.carried
    rw [hnil] at hcarried
    rw [hcarried.sent, hcarried.eq_nil (frames hm content) fun p _ => hcontent p, List.append_nil]

/-- All that has been enqueued has been received when nothing is left to do. -/
theorem Conveys.outputs_eq (hm : Matching senderEncoder enc)
    (hcontent : ∀ p, Sendable (content p))
    (h : Conveys senderEncoder enc content l passed pending)
    (hsender : (Send.system sendBuffer).ReachableVia Send.Smooth l.sender) (hrest : l.AtRest) :
    l.receiver.outputs =
      l.sender.shared.enqueued.map (fun p => .onRecv (content p).payload) := by
  obtain ⟨k, -, hout, hall⟩ := h.outputs_take hm hcontent (Send.ledger hsender).sent
  have henq := enqueued_eq_sent hsender hrest.quiet hrest.notes hrest.sends
  rw [hout, hall hrest.inFlight, henq, List.take_length]

/-- **What is received are the first packets enqueued, in order.** In every state of every run in
which `SendPost` counts at most 1000 packets at a time and the completions fit behind `Rear`,
whichever end is killed and whichever send fails: the receiver has passed the payloads of the first
`k` packets enqueued to `OnRecv`, in their order and nothing else; all that were sent once nothing
is in flight; and as long as something is and the receiver is not killed, the next byte can be
delivered. -/
theorem received_in_order (hm : Matching senderEncoder enc) (hcontent : ∀ p, Sendable (content p))
    (h : (link senderEncoder enc pool content sendBuffer memory).ReachableVia Within l) :
    ∃ k ≤ l.sender.shared.sent.length,
      l.receiver.outputs =
        (l.sender.shared.enqueued.take k).map (fun p => .onRecv (content p).payload) ∧
      l.receiver.crashed = false ∧ (l.inFlight = [] → k = l.sender.shared.sent.length) ∧
      (l.inFlight ≠ [] → l.receiver.sessionUseFlag = true →
        ∃ m, (link senderEncoder enc pool content sendBuffer memory).step l (.deliver 1) = some m ∧
          Within l (.deliver 1)) := by
  obtain ⟨passed, pending, hc⟩ := conveys hm hcontent (fun _ _ h => h) h
  have hsender := sender_reachable (Program.Steps Send.Fits) (fun _ _ _ h => h) h
  obtain ⟨k, hk, hout, hall⟩ := hc.outputs_take hm hcontent (Send.ledger hsender).sent
  exact ⟨k, hk, hout, hc.crashed, hall, hc.exists_deliver hm hcontent⟩

/-- `Undisturbed`, decided. -/
def undisturbed (l : Link) : Act → Bool
  | .send i b => (l.sender.top i != some .readSize || decide (l.sender.shared.size ≤ 1000)) &&
    Send.smooth l.sender (i, b)
  | .deliver n => fitsBehind l.receiver (l.inFlight.take n)
  | .killSession => true

theorem undisturbed_spec (l : Link) (a : Act) (h : undisturbed l a = true) : Undisturbed l a := by
  cases a with
  | send i b =>
    obtain ⟨h₁, h₂⟩ := Bool.and_eq_true_iff.1 h
    refine ⟨fun f hf hread => ?_, fun j c heq => ?_⟩
    · rw [hread] at hf
      simpa [hf, Send.sendBufferSize] using h₁
    · obtain ⟨rfl, rfl⟩ := Act.send.inj heq
      exact Send.smooth_spec _ _ h₂
  | deliver n => exact ⟨h, fun _ _ heq => nomatch heq⟩
  | killSession => exact ⟨trivial, fun _ _ heq => nomatch heq⟩

/-- The byte 7 in a packet. -/
def seven : Outgoing := ⟨[7], 9, ⟨.new 1024 fun _ => 0, bufferSize_zeros⟩⟩

theorem matching_default : Matching {} {} := ⟨rfl, rfl, .inr (by decide)⟩

theorem sendable_seven : Sendable seven := ⟨by decide, by decide⟩

/-- A thread calls `SendPacket`, and a worker sends the packet and handles the completion of the
send. -/
def oneSent : List (ℕ × Send.Act) :=
  Send.sending 0 7 ++ [(1, .note)] ++ List.replicate 10 (1, .next) ++
    [(1, .posted), (1, .next), (1, .sendDone 6)] ++ List.replicate 9 (1, .next)

/-- The packet arrives in two pieces. -/
def oneReceived : List Act := oneSent.map (fun l => .send l.1 l.2) ++ [.deliver 2, .deliver 4]

theorem exists_received :
    ∃ l, (link {} {} (fun _ => ⟨.new 1024 fun _ => 0, rfl⟩) (fun _ => seven) (fun _ => 0)
        fun _ => 0).ReachableVia Undisturbed l ∧ l.AtRest ∧ l.sender.shared.sent = [7] ∧
          l.sender.shared.enqueued = [7] := by
  obtain ⟨l, hl, hp⟩ := Lts.exists_reachableVia_of_run
    (M := link {} {} (fun _ => ⟨.new 1024 fun _ => 0, rfl⟩) (fun _ => seven) (fun _ => 0) fun _ => 0)
    undisturbed_spec ⟨2, rfl⟩ oneReceived
    (p := fun l => decide (l.sender.Quiet ∧ l.sender.shared.notes = 0 ∧ l.sender.shared.sends = 0 ∧
      l.inFlight = [] ∧ l.sender.shared.sent = [7] ∧ l.sender.shared.enqueued = [7]))
    (by decide +kernel)
  obtain ⟨hq, hnotes, hsends, hflight, hsent⟩ := of_decide_eq_true hp
  exact ⟨l, hl, ⟨hq, hnotes, hsends, hflight⟩, hsent⟩

theorem received_in_order_seven :
    ∃ l, (link {} {} (fun _ => ⟨.new 1024 fun _ => 0, rfl⟩) (fun _ => seven) (fun _ => 0)
        fun _ => 0).ReachableVia Within l ∧ l.receiver.outputs = [.onRecv [7]] ∧
          l.receiver.crashed = false := by
  obtain ⟨l, hl, hrest, hsent, henq⟩ := exists_received
  have hl := hl.mono (fun _ _ h => h.1)
  obtain ⟨k, -, hout, hcrash, hall, -⟩ :=
    received_in_order matching_default (fun _ => sendable_seven) hl
  rw [hall hrest.inFlight, hsent, henq] at hout
  exact ⟨l, hl, hout, hcrash⟩

/-- **Every packet is received, once and in order.** When the sending end is not killed and its
sends succeed, the receiver has passed the payload of every packet enqueued to `OnRecv` in each
state in which nothing is left to do. -/
theorem received_all (hm : Matching senderEncoder enc) (hcontent : ∀ p, Sendable (content p))
    (h : (link senderEncoder enc pool content sendBuffer memory).ReachableVia Undisturbed l)
    (hrest : l.AtRest) :
    l.receiver.outputs =
        l.sender.shared.enqueued.map (fun p => .onRecv (content p).payload) ∧
      l.receiver.crashed = false := by
  obtain ⟨passed, pending, hc⟩ := conveys hm hcontent (fun _ _ h => h.1) h
  have hsender := sender_reachable Send.Smooth (fun _ i b h => h.2 i b rfl) h
  exact ⟨hc.outputs_eq hm hcontent hsender hrest, hc.crashed⟩

theorem received_all_seven :
    ∃ l, (link {} {} (fun _ => ⟨.new 1024 fun _ => 0, rfl⟩) (fun _ => seven) (fun _ => 0)
        fun _ => 0).ReachableVia Undisturbed l ∧ l.receiver.outputs = [.onRecv [7]] ∧
          l.receiver.crashed = false := by
  obtain ⟨l, hl, hrest, -, henq⟩ := exists_received
  obtain ⟨hout, hcrash⟩ := received_all matching_default (fun _ => sendable_seven) hl hrest
  rw [henq] at hout
  exact ⟨l, hl, hout, hcrash⟩

end NetworkLibrary.Delivery
