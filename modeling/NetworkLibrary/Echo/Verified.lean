import NetworkLibrary.Echo.EchoServer

/-!
# Every echo is verified

The echoes that the server enqueues are the payloads it received, in their order (`Echoes`). With
what the two links do, `TestClient` gets back a prefix of what it sent and verifies all of it
(`echoes_verified`), and the whole of it once nothing is under way (`echoes_complete`).
-/

namespace NetworkLibrary.Echo

open Foundations Receive Delivery

variable {c : Setup} {s t : State} {a : Act} {ok : State → Act → Prop}

/-! ## The steps -/

/-- **The cases of a step.** -/
theorem step_cases (h : (session c).step s a = some t) :
    (∃ b l, a = .up b ∧ c.up.step s.up b = some l ∧ t = { s with up := l }) ∨
      (∃ b l, a = .down b ∧ (∀ i p, b ≠ .send i (.sendPacket p)) ∧ c.down.step s.down b = some l ∧
        t = s.receive c.clientPool l) ∨
      ∃ i p payload l, a = .echo i p ∧ s.up.receiver.outputs[s.echoed]? = some (.onRecv payload) ∧
        (c.serverContent p).payload = payload ∧ s.down.sender.calls[i]? = some [] ∧
        s.down.sender.frames.any ofSendPacket = false ∧
        c.down.step s.down (.send i (.sendPacket p)) = some l ∧
        t = { s with down := l, echoed := s.echoed + 1 } := by
  simp only [session] at h
  unfold step at h
  split at h
  · obtain ⟨-, h⟩ := Option.ite_none_left_eq_some.1 h
    obtain ⟨l, hl, rfl⟩ := Option.map_eq_some_iff.1 h
    exact .inl ⟨_, l, rfl, hl, rfl⟩
  · obtain ⟨l, hl, rfl⟩ := Option.map_eq_some_iff.1 h
    exact .inl ⟨_, l, rfl, hl, rfl⟩
  · cases h
  · rename_i b hb
    obtain ⟨l, hl, rfl⟩ := Option.map_eq_some_iff.1 h
    exact .inr (.inl ⟨b, l, rfl, hb, hl, rfl⟩)
  · split at h
    · rename_i payload hout
      obtain ⟨⟨h₁, h₂, h₃⟩, h⟩ := Option.ite_none_right_eq_some.1 h
      obtain ⟨l, hl, rfl⟩ := Option.map_eq_some_iff.1 h
      exact .inr (.inr ⟨_, _, payload, l, rfl, hout, h₁, h₂, h₃, hl, rfl⟩)
    · cases h

/-- The way up runs as a link does alone. -/
theorem up_reachable (okUp : Link → Delivery.Act → Prop)
    (hok : ∀ s b, ok s (.up b) → okUp s.up b) (h : (session c).ReachableVia ok s) :
    c.up.ReachableVia okUp s.up := by
  induction h with
  | start h => exact .start h.1
  | next _ hstep hst ih =>
    rcases step_cases hst with ⟨b, l, rfl, hl, rfl⟩ | ⟨b, l, -, -, -, rfl⟩ |
      ⟨i, p, payload, l, -, -, -, -, -, -, rfl⟩
    · exact ih.next (hok _ b hstep) hl
    · exact ih
    · exact ih

/-- The way down, too. -/
theorem down_reachable (okDown : Link → Delivery.Act → Prop)
    (hok : ∀ s b, ok s (.down b) → okDown s.down b)
    (hecho : ∀ s i p, ok s (.echo i p) → okDown s.down (.send i (.sendPacket p)))
    (h : (session c).ReachableVia ok s) : c.down.ReachableVia okDown s.down := by
  induction h with
  | start h => exact .start h.2.1
  | next _ hstep hst ih =>
    rcases step_cases hst with ⟨b, l, -, -, rfl⟩ | ⟨b, l, rfl, -, hl, rfl⟩ |
      ⟨i, p, payload, l, rfl, -, -, -, -, hl, rfl⟩
    · exact ih
    · exact ih.next (hok _ b hstep) hl
    · exact ih.next (hecho _ i p hstep) hl

/-! ## The echoes -/

/-- The packet that a frame of `SendPacket` is about to link. -/
def linking : Send.Frame → Option ℕ
  | .enqueueLink p => some p
  | _ => none

/-- `ofSendPacket`, as a weight. -/
def sending (f : Send.Frame) : ℕ := if ofSendPacket f then 1 else 0

variable {f : Send.Frame} {g g' : Send.SendSide} {b : Send.Act} {new fs : List Send.Frame}

theorem filterMap_linking (h : tally sending fs = 0) : fs.filterMap linking = [] := by
  rw [List.filterMap_eq_nil_iff]
  intro f hf
  have := tally_eq_zero.1 h f hf
  cases f <;> simp_all [linking, sending, ofSendPacket]

theorem tally_sending_of_any (h : fs.any ofSendPacket = false) : tally sending fs = 0 :=
  tally_eq_zero.2 fun f hf => by
    rw [sending, if_neg (by simpa using List.any_eq_false.1 h f hf)]

theorem exec_linking (h : Send.exec g f b = some (g', new)) :
    g'.enqueued = g.enqueued ++ [f].filterMap linking ∧ new.filterMap linking = [] ∧
      tally sending new ≤ sending f ∧ ([f].filterMap linking = [] ∨ sending f = 1) := by
  revert h
  fun_cases Send.exec g f b <;> intro h <;> cases h <;> simp [linking, sending, ofSendPacket]

theorem call_linking (h : Send.call g b = some (g', new)) (hb : ∀ p, b ≠ .sendPacket p) :
    g'.enqueued = g.enqueued ∧ tally sending new = 0 := by
  revert h
  fun_cases Send.call g b <;> intro h <;> cases h <;> simp_all [sending, ofSendPacket]

/-- The server's calls of `SendPacket` are made one after the other, with the payloads received in
their order. -/
structure Echoes (c : Setup) (s : State) : Prop where
  sequential : tally sending s.down.sender.frames ≤ 1
  payloads : (s.down.sender.shared.enqueued ++ s.down.sender.frames.filterMap linking).map
    (fun p => .onRecv (c.serverContent p).payload) = s.up.receiver.outputs.take s.echoed
  bound : s.echoed ≤ s.up.receiver.outputs.length

/-- A step of the server's send side, other than a call of `SendPacket`. -/
theorem sender_step {u v : Threads Send.SendSide Send.Frame} {i : ℕ} {sendBuffer : ℕ → ℕ}
    (hseq : tally sending u.frames ≤ 1) (h : (Send.system sendBuffer).step u (i, b) = some v)
    (hb : ∀ p, b ≠ .sendPacket p) :
    tally sending v.frames ≤ 1 ∧
      v.shared.enqueued ++ v.frames.filterMap linking =
        u.shared.enqueued ++ u.frames.filterMap linking := by
  obtain ⟨pre, old, new, post, hu, hv, hf, -⟩ := Program.step_frames h
  have htally := Program.tally_step (w := sending) hu hv
  cases hf with
  | call hc =>
    obtain ⟨henq, hnew⟩ := call_linking hc hb
    rw [tally_nil] at htally
    refine ⟨by omega, ?_⟩
    rw [henq, hu, hv, List.filterMap_append, List.filterMap_append, List.filterMap_append,
      List.filterMap_append, filterMap_linking hnew, List.filterMap_nil]
  | exec he =>
    rename_i f
    obtain ⟨henq, hnew, hle, hone⟩ := exec_linking he
    simp only [tally_cons, tally_nil] at htally
    refine ⟨by omega, ?_⟩
    rw [henq, hu, hv, List.filterMap_append, List.filterMap_append, List.filterMap_append,
      List.filterMap_append, hnew]
    rcases hone with hnone | hone
    · rw [hnone, List.append_nil]
    · -- the running frame is the only one of `SendPacket`
      rw [hu] at hseq
      simp only [tally_append, tally_cons, tally_nil] at hseq
      have hpre : pre.filterMap linking = [] := filterMap_linking (by omega)
      have hpost : post.filterMap linking = [] := filterMap_linking (by omega)
      simp [hpre, hpost]

/-- A call of `SendPacket` by an idle thread. -/
theorem sender_call {u v : Threads Send.SendSide Send.Frame} {i p : ℕ} {sendBuffer : ℕ → ℕ}
    (hnone : u.frames.any ofSendPacket = false) (hidle : u.calls[i]? = some [])
    (h : (Send.system sendBuffer).step u (i, .sendPacket p) = some v) :
    tally sending v.frames ≤ 1 ∧
      v.shared.enqueued ++ v.frames.filterMap linking =
        u.shared.enqueued ++ u.frames.filterMap linking ++ [p] := by
  obtain ⟨pre, old, new, post, hu, hv, hf, htop⟩ := Program.step_frames h
  have htally := Program.tally_step (w := sending) hu hv
  have hzero := tally_sending_of_any hnone
  have hlinks := filterMap_linking hzero
  cases hf with
  | call hc =>
    obtain ⟨hshared, rfl⟩ := Prod.mk.inj (Option.some.inj hc)
    have hpre : pre.filterMap linking = [] := by
      rw [hu] at hlinks
      simp only [List.filterMap_append, List.append_eq_nil_iff] at hlinks
      exact hlinks.1.1
    have hpost : post.filterMap linking = [] := by
      rw [hu] at hlinks
      simp only [List.filterMap_append, List.append_eq_nil_iff] at hlinks
      exact hlinks.2
    simp only [tally_cons, tally_nil, sending, ofSendPacket, if_true] at htally
    refine ⟨by omega, ?_⟩
    rw [hlinks, ← hshared, hv, List.filterMap_append, List.filterMap_append, hpre, hpost]
    simp [linking]
  | exec he =>
    have := htop _ rfl
    simp [Threads.top, hidle] at this

/-- **The server echoes what it receives, in order.** -/
theorem echoes (h : (session c).ReachableVia ok s) : Echoes c s := by
  refine h.invariant (I := Echoes c) ?_ ?_
  · rintro s ⟨⟨n, hup⟩, ⟨k, hdown⟩, hechoed, -⟩
    refine ⟨?_, ?_, ?_⟩ <;> simp [hup, hdown, hechoed, Send.initSession]
  · intro s a t ih _ hst
    rcases step_cases hst with ⟨b, l, -, hl, rfl⟩ | ⟨b, l, -, hb, hl, rfl⟩ |
      ⟨i, p, payload, l, -, hout, hpayload, hidle, hnone, hl, rfl⟩
    · obtain ⟨more, hmore⟩ := outputs_prefix hl
      refine ⟨ih.sequential, ?_, ?_⟩
      · dsimp only
        rw [← hmore, List.take_append_of_le_length ih.bound]
        exact ih.payloads
      · dsimp only
        rw [← hmore, List.length_append]
        exact ih.bound.trans (Nat.le_add_right ..)
    · rcases Delivery.step_cases hl with ⟨i, b', u, ps, rfl, hu, -, rfl⟩ | ⟨n, r, -, -, -, rfl⟩ |
        ⟨-, rfl⟩
      · obtain ⟨hseq, henq⟩ := sender_step ih.sequential hu fun p hp => hb i p (hp ▸ rfl)
        refine ⟨hseq, ?_, ih.bound⟩
        dsimp only [State.receive]
        rw [henq]
        exact ih.payloads
      · exact ⟨ih.sequential, ih.payloads, ih.bound⟩
      · exact ⟨ih.sequential, ih.payloads, ih.bound⟩
    · rcases Delivery.step_cases hl with ⟨i', b', u, ps, heq, hu, -, rfl⟩ |
        ⟨n, r, heq, -, -, -⟩ | ⟨heq, -⟩
      · obtain ⟨rfl, rfl⟩ := Delivery.Act.send.inj heq
        obtain ⟨hseq, henq⟩ := sender_call hnone hidle hu
        obtain ⟨hlt, hget⟩ := List.getElem?_eq_some_iff.1 hout
        refine ⟨hseq, ?_, hlt⟩
        dsimp only
        rw [henq, List.map_append, ih.payloads, List.take_succ_eq_append_getElem hlt, hget,
          List.map_singleton, hpayload]
      · cases heq
      · cases heq

/-! ## The client -/

/-- The client has handled the packets received. -/
theorem client_eq (h : (session c).ReachableVia ok s) :
    s.client = s.down.receiver.outputs.foldl (TestClient.receive c.clientPool) ⟨0, 0, false⟩ := by
  refine h.invariant (I := fun s => s.client =
    s.down.receiver.outputs.foldl (TestClient.receive c.clientPool) ⟨0, 0, false⟩) ?_ ?_
  · rintro s ⟨-, ⟨n, hdown⟩, -, hclient⟩
    simp [hdown, hclient, initSession]
  · intro s a t ih _ hst
    rcases step_cases hst with ⟨b, l, -, -, rfl⟩ | ⟨b, l, -, -, hl, rfl⟩ |
      ⟨i, p, payload, l, -, -, -, -, -, hl, rfl⟩
    · exact ih
    · obtain ⟨more, hmore⟩ := outputs_prefix hl
      dsimp only [State.receive]
      rw [← hmore, List.drop_left, List.foldl_append, ← ih]
    · rcases Delivery.step_cases hl with ⟨_, _, _, _, -, -, -, rfl⟩ | ⟨n, r, heq, -, -, -⟩ |
        ⟨heq, -⟩
      · exact ih
      · cases heq
      · cases heq

theorem sendable_client (hc : c.Proper) (p : ℕ) : Sendable (c.clientContent p) := by
  obtain ⟨payload, h⟩ := hc.client p
  have hlen := length_testPacket (c.clientContent p).pooled payload
  rw [← h] at hlen
  exact ⟨by omega, by omega⟩

/-- The client verifies every packet that it gets, as long as these are its own. -/
theorem client_of_outputs (hc : c.Proper) (h : (session c).ReachableVia ok s) {ps : List ℕ}
    (hout : s.down.receiver.outputs = ps.map fun p => .onRecv (c.clientContent p).payload) :
    s.client = ⟨ps.length, ps.length, false⟩ := by
  have hmap : s.down.receiver.outputs =
      (ps.map fun p => (c.clientContent p).payload).map .onRecv := by
    rw [hout, List.map_map]
    rfl
  rw [client_eq h, hmap, foldl_receive, List.length_map, Nat.zero_add]
  intro payload hmem
  obtain ⟨p, -, rfl⟩ := List.mem_map.1 hmem
  obtain ⟨payload, hp⟩ := hc.client p
  exact ⟨(sendable_client hc p).2, _, hp.trans (data_testPacket _ payload)⟩

/-! ## The session -/

/-- **Every echo is verified.** In every state of every run of a session in which both ends stay
within the bounds of their buffers, whichever end is killed and whichever send fails: the packets
that `TestClient::OnRecv` has got are the first `k` that the client has enqueued, in their order;
`RecvCnt` and `VerifiedCnt` are both `k`; and nobody has called `Crash`: not the client, nor an end
for what it has received, nor `SendPost` for a `Dequeue` that failed. -/
theorem echoes_verified (hc : c.Proper) (h : (session c).ReachableVia Within s) :
    ∃ k ≤ s.up.sender.shared.enqueued.length,
      s.down.receiver.outputs = (s.up.sender.shared.enqueued.take k).map
        (fun p => .onRecv (c.clientContent p).payload) ∧
      s.client = ⟨k, k, false⟩ ∧ s.up.receiver.crashed = false ∧
      s.down.receiver.crashed = false ∧ s.up.sender.shared.crashed = false ∧
      s.down.sender.shared.crashed = false := by
  have hup := up_reachable Delivery.Within (fun _ _ h => h) h
  have hdown := down_reachable Delivery.Within (fun _ _ h => h) (fun _ _ _ h => h) h
  obtain ⟨_, _, hcu⟩ := conveys hc.up (sendable_client hc) (fun _ _ h => h) hup
  obtain ⟨_, _, hcd⟩ := conveys hc.down hc.server (fun _ _ h => h) hdown
  have hsu := sender_reachable (Program.Steps Send.Fits) (fun _ _ _ h => h) hup
  have hsd := sender_reachable (Program.Steps Send.Fits) (fun _ _ _ h => h) hdown
  obtain ⟨k₁, -, hout₁, -⟩ := hcu.outputs_take hc.up (sendable_client hc) (Send.ledger hsu).sent
  obtain ⟨k₂, hk₂, hout₂, -⟩ := hcd.outputs_take hc.down hc.server (Send.ledger hsd).sent
  have hechoes := (echoes h).payloads
  have hlen : k₂ ≤ s.down.sender.shared.enqueued.length :=
    hk₂.trans (Send.ledger hsd).sent.length_le
  have hout : s.down.receiver.outputs = (s.up.sender.shared.enqueued.take
      (min (min k₂ s.echoed) k₁)).map fun p => .onRecv (c.clientContent p).payload := by
    calc s.down.receiver.outputs
      _ = ((s.down.sender.shared.enqueued ++ s.down.sender.frames.filterMap linking).take k₂).map
            fun p => .onRecv (c.serverContent p).payload := by
          rw [hout₂, List.take_append_of_le_length hlen]
      _ = (s.up.receiver.outputs.take s.echoed).take k₂ := by rw [List.map_take, hechoes]
      _ = _ := by rw [List.take_take, hout₁, ← List.map_take, List.take_take]
  rw [List.take_eq_take_min] at hout
  refine ⟨_, Nat.min_le_right .., hout, ?_, hcu.crashed, hcd.crashed, (Send.covered hsu).crashed,
    (Send.covered hsd).crashed⟩
  have hclient := client_of_outputs hc h hout
  rw [List.length_take, Nat.min_eq_left (Nat.min_le_right ..)] at hclient
  exact hclient

/-- `Undisturbed`, decided. -/
def undisturbed (s : State) : Act → Bool
  | .up a => Delivery.undisturbed s.up a
  | .down a => Delivery.undisturbed s.down a
  | .echo i p => Delivery.undisturbed s.down (.send i (.sendPacket p))

theorem undisturbed_spec (s : State) (a : Act) (h : undisturbed s a = true) : Undisturbed s a := by
  cases a with
  | up a => exact Delivery.undisturbed_spec s.up a h
  | down a => exact Delivery.undisturbed_spec s.down a h
  | echo i p => exact Delivery.undisturbed_spec s.down _ h

theorem within_of_undisturbed (s : State) (a : Act) (h : Undisturbed s a) : Within s a := by
  cases a <;> exact h.1

/-- A session whose packets all hold the number 7. -/
def sevens : Setup where
  clientEncoder := {}
  serverEncoder := {}
  clientPool := fun _ => ⟨.new 1024 fun _ => 0, bufferSize_zeros⟩
  serverPool := fun _ => ⟨.new 1024 fun _ => 0, bufferSize_zeros⟩
  clientContent := fun _ => ⟨[1, 0, 7, 0, 0, 0], 9, ⟨.new 1024 fun _ => 0, bufferSize_zeros⟩⟩
  serverContent := fun _ => ⟨[1, 0, 7, 0, 0, 0], 5, ⟨.new 1024 fun _ => 0, bufferSize_zeros⟩⟩
  clientSendBuffer := fun _ => 0
  serverSendBuffer := fun _ => 0
  clientMemory := fun _ => 0
  serverMemory := fun _ => 0

theorem proper_sevens : sevens.Proper where
  up := matching_default
  down := matching_default
  client _ := ⟨7, show ([1, 0, 7, 0, 0, 0] : List UInt8) =
    (testPacket ⟨.new 1024 fun _ => 0, rfl⟩ 7).data by decide⟩
  server _ := ⟨(by decide : 1 ≤ 6), (by decide : 6 ≤ 1004)⟩

/-- A worker handles the notification of the packet that has just been enqueued, and the completion
of the send. -/
def sendQueued : List (ℕ × Send.Act) :=
  [(1, .note)] ++ List.replicate 10 (1, .next) ++ [(1, .posted), (1, .next), (1, .sendDone 11)] ++
    List.replicate 9 (1, .next)

/-- One packet and its echo. -/
def oneEcho : List Act :=
  (Send.sending 0 7 ++ sendQueued).map (fun l => .up (.send l.1 l.2)) ++
    [.up (.deliver 4), .up (.deliver 7), .echo 0 3] ++
    List.replicate 3 (.down (.send 0 .next)) ++
    sendQueued.map (fun l => .down (.send l.1 l.2)) ++ [.down (.deliver 11)]

theorem exists_oneEcho : ∃ s, (session sevens).ReachableVia Undisturbed s ∧ s.up.AtRest ∧
    s.down.AtRest ∧ s.handling = false ∧ s.up.sender.shared.enqueued = [7] ∧
    s.client.recvCnt = 1 := by
  obtain ⟨s, hs, hp⟩ := Lts.exists_reachableVia_of_run (M := session sevens) undisturbed_spec
    (s := ⟨⟨Threads.idle (Send.initSession fun _ => 0) 2, [], initSession fun _ => 0⟩,
      ⟨Threads.idle (Send.initSession fun _ => 0) 2, [], initSession fun _ => 0⟩, 0, ⟨0, 0, false⟩⟩)
    ⟨⟨2, rfl⟩, ⟨2, rfl⟩, rfl, rfl⟩ oneEcho
    (p := fun s => decide ((s.up.sender.Quiet ∧ s.up.sender.shared.notes = 0 ∧
      s.up.sender.shared.sends = 0 ∧ s.up.inFlight = []) ∧ (s.down.sender.Quiet ∧
      s.down.sender.shared.notes = 0 ∧ s.down.sender.shared.sends = 0 ∧ s.down.inFlight = []) ∧
      s.handling = false ∧ s.up.sender.shared.enqueued = [7] ∧ s.client.recvCnt = 1))
    (by decide +kernel)
  obtain ⟨⟨h₁, h₂, h₃, h₄⟩, ⟨h₅, h₆, h₇, h₈⟩, h⟩ := of_decide_eq_true hp
  exact ⟨s, hs, ⟨h₁, h₂, h₃, h₄⟩, ⟨h₅, h₆, h₇, h₈⟩, h⟩

theorem echoes_verified_seven : ∃ s, (session sevens).ReachableVia Within s ∧
    s.client = ⟨1, 1, false⟩ ∧ s.down.receiver.outputs = [.onRecv [1, 0, 7, 0, 0, 0]] := by
  obtain ⟨s, hs, -, -, -, henq, hcnt⟩ := exists_oneEcho
  have hs := hs.mono within_of_undisturbed
  obtain ⟨k, -, hout, hclient, -⟩ := echoes_verified proper_sevens hs
  rw [hclient] at hcnt
  obtain rfl : k = 1 := hcnt
  rw [henq] at hout
  exact ⟨s, hs, hclient, hout⟩

/-- **Nothing gets lost.** When no end is killed and all sends succeed, the client has got back and
verified every packet that it has enqueued in each state in which nothing is left to do. -/
theorem echoes_complete (hc : c.Proper) (h : (session c).ReachableVia Undisturbed s)
    (hup : s.up.AtRest) (hdown : s.down.AtRest) (hhandling : s.handling = false) :
    s.down.receiver.outputs = s.up.sender.shared.enqueued.map
        (fun p => .onRecv (c.clientContent p).payload) ∧
      s.client = ⟨s.up.sender.shared.enqueued.length, s.up.sender.shared.enqueued.length, false⟩ := by
  have hru := up_reachable Delivery.Undisturbed (fun _ _ h => h) h
  have hrd := down_reachable Delivery.Undisturbed (fun _ _ h => h) (fun _ _ _ h => h) h
  obtain ⟨_, _, hcu⟩ := conveys hc.up (sendable_client hc) (fun _ _ h => h.1) hru
  obtain ⟨_, _, hcd⟩ := conveys hc.down hc.server (fun _ _ h => h.1) hrd
  have hsu := sender_reachable Send.Smooth (fun _ i b h => h.2 i b rfl) hru
  have hsd := sender_reachable Send.Smooth (fun _ i b h => h.2 i b rfl) hrd
  have hechoes := (echoes h).payloads
  simp only [State.handling, Bool.or_eq_false_iff, decide_eq_false_iff_not, not_not] at hhandling
  have hquiet : s.down.sender.frames = [] := hdown.quiet
  rw [hhandling.1, List.take_length, hquiet, List.filterMap_nil, List.append_nil] at hechoes
  have hout : s.down.receiver.outputs = s.up.sender.shared.enqueued.map
      fun p => .onRecv (c.clientContent p).payload := by
    rw [hcd.outputs_eq hc.down hc.server hsd hdown, hechoes,
      hcu.outputs_eq hc.up (sendable_client hc) hsu hup]
  exact ⟨hout, client_of_outputs hc h hout⟩

theorem echoes_complete_seven : ∃ s, (session sevens).ReachableVia Undisturbed s ∧
    s.client = ⟨1, 1, false⟩ ∧ s.down.receiver.outputs = [.onRecv [1, 0, 7, 0, 0, 0]] := by
  obtain ⟨s, hs, hup, hdown, hhandling, henq, -⟩ := exists_oneEcho
  obtain ⟨hout, hclient⟩ := echoes_complete proper_sevens hs hup hdown hhandling
  rw [henq] at hout hclient
  exact ⟨s, hs, hclient, hout⟩

end NetworkLibrary.Echo
