import NetworkLibrary.Receive.Messages

/-!
# The loop of the receive handler

The handler's loop takes messages off `RecvQ` until `next` wants more or rejects: it parses the
data of `RecvQ` (`recvLoop_parses`), and as each message takes at least its header off the data,
it ends. Between two completions `RecvQ` is `Settled`: its data starts at 0, or there is none and
both positions are behind the header reserve.
-/

namespace NetworkLibrary.Receive

open Foundations XorPacketEncoder

variable {enc : XorPacketEncoder} {pool : Pool} {q : Packet} {s r : RecvSide}
  {bytes : List UInt8} {ds : List (List UInt8)} {o : Outcome UInt8}

/-! ## The loop -/

/-- The call of `KillSession` that ends the parse of a stream. -/
def kills : Outcome UInt8 → List Output
  | .waiting _ => []
  | .rejected => [.killSession]

/-- The loop has gone from `s` to `r`: it has handed packets with the contents `ds` to `OnRecv`,
and ended as the parse did. -/
structure Ended (s r : RecvSide) (ds : List (List UInt8)) (o : Outcome UInt8) : Prop where
  inBounds : r.recvQ.InBounds
  bufferSize : r.recvQ.bufferSize = s.recvQ.bufferSize
  crashed : r.crashed = s.crashed
  outputs : r.outputs = s.outputs ++ (ds.map .onRecv ++ kills o)
  waiting : ∀ rest, o = .waiting rest → r.recvQ.data = rest ∧ r.sessionUseFlag = s.sessionUseFlag
  rejected : o = .rejected → r.sessionUseFlag = false

theorem ended_stop (hq : s.recvQ.InBounds) : Ended s s [] (.waiting s.recvQ.data) where
  inBounds := hq
  bufferSize := rfl
  crashed := rfl
  outputs := by simp [kills]
  waiting rest h := ⟨Outcome.waiting.inj h, rfl⟩
  rejected h := nomatch h

theorem ended_killSession (m : ℤ → UInt8) (hq : s.recvQ.InBounds) :
    Ended s (s.killSession { s.recvQ with buffer := m }) [] .rejected where
  inBounds := ⟨hq.front, hq.rear, hq.size⟩
  bufferSize := rfl
  crashed := rfl
  outputs := by simp [kills]
  waiting rest h := nomatch h
  rejected _ := rfl

theorem Ended.onRecv {packet q' : Packet} (hsize : q'.bufferSize = s.recvQ.bufferSize)
    (h : Ended (s.onRecv packet q') r ds o) : Ended s r (packet.data :: ds) o where
  inBounds := h.inBounds
  bufferSize := h.bufferSize.trans hsize
  crashed := h.crashed
  outputs := by simp [h.outputs]
  waiting := h.waiting
  rejected := h.rejected

/-- **The loop parses the data of `RecvQ`.** It ends, and the packets it hands to `OnRecv` hold the
payloads, as long as these fit into the packets of the pool. -/
theorem recvLoop_parses (enc : XorPacketEncoder) (pool : Pool) {fuel : ℕ}
    (hq : s.recvQ.InBounds) (hsize : s.recvQ.bufferSize < 2 ^ 32)
    (hfuel : s.recvQ.getDataSize.toNat < fuel) :
    ∃ r ps ds o, recvLoop enc pool fuel s = some r ∧ Parses enc.next s.recvQ.data ps o ∧
      ((∀ p ∈ ps, p.length ≤ 1004) → ds = ps) ∧ Ended s r ds o := by
  induction fuel generalizing s with
  | zero => omega
  | succ fuel ih =>
    rcases message enc hq hsize (allocPacket (pool s.outputs.length)) with
      ⟨hnext, hcheck⟩ | ⟨hnext, hcheck | ⟨hacc, m, hget⟩⟩ | ⟨payload, m, hnext, hin, hacc, -, hget⟩
    · exact ⟨s, [], [], _, by rw [recvLoop, hcheck], .more hnext, fun _ => rfl, ended_stop hq⟩
    · exact ⟨s.killSession s.recvQ, [], [], _, by rw [recvLoop, hcheck], .reject hnext,
        fun _ => rfl, ended_killSession s.recvQ.buffer hq⟩
    · refine ⟨_, [], [], _, ?_, .reject hnext, fun _ => rfl, ended_killSession m hq⟩
      rw [recvLoop, hacc]
      simp only [hget]
    · set q' : Packet := { s.recvQ with buffer := m, front := s.recvQ.front + (5 + payload.length) }
        with hq'
      set packet := (((allocPacket (pool s.outputs.length)).fill payload
        (allocPacket (pool s.outputs.length)).rear).moveWritePos payload.length).2 with hpacket
      -- the data shrinks by the header at least
      have hless : q'.getDataSize.toNat < fuel := by
        have := hin.rear
        simp only [hq', Packet.getDataSize] at this hfuel ⊢
        omega
      obtain ⟨r, ps, ds, o, hloop, hparse, hds, hend⟩ :=
        ih (s := s.onRecv packet q') hin hsize hless
      refine ⟨r, payload :: ps, packet.data :: ds, o, ?_, .item hnext hparse, fun hps => ?_,
        Ended.onRecv (show q'.bufferSize = s.recvQ.bufferSize from rfl) hend⟩
      · rw [recvLoop, hacc]
        simp only [hget]
        exact hloop
      · rw [hpacket, data_allocPacket _ _ (hps payload (by simp)), hds fun p hp => hps p (by simp [hp])]

/-! ## Between two completions -/

/-- `RecvQ` when a receive is posted. -/
structure Settled (q : Packet) : Prop where
  bufferSize : q.bufferSize = 4096
  positions : q.front = 0 ∧ 0 < q.rear ∧ q.rear ≤ 4096 ∨ q.front = 20 ∧ q.rear = 20

theorem Settled.inBounds (h : Settled q) : q.InBounds := by
  have := h.bufferSize
  rcases h.positions with ⟨h₁, h₂, h₃⟩ | ⟨h₁, h₂⟩
  · exact ⟨by omega, by omega, by omega⟩
  · exact ⟨by omega, by omega, by omega⟩

theorem settled_initSession (memory : ℤ → UInt8) : Settled (initSession memory).recvQ :=
  ⟨rfl, .inr ⟨rfl, rfl⟩⟩

theorem settled_rewind (hq : q.InBounds) (hsize : q.bufferSize = 4096) : Settled (rewind q) := by
  obtain ⟨h₁, h₂, h₃⟩ := hq
  rw [rewind]
  split
  · rename_i hne
    refine ⟨hsize, .inl ⟨rfl, ?_⟩⟩
    simp only [Packet.shiftDataToFront, Packet.getDataSize] at hne ⊢
    omega
  · exact ⟨hsize, .inr ⟨rfl, rfl⟩⟩

theorem data_rewind : (rewind q).data = q.data := by
  rw [rewind]
  split
  · exact Packet.data_shiftDataToFront
  · rename_i hz
    rw [Packet.data_clear, Packet.data, not_not.1 hz]
    rfl

theorem inBounds_received (hq : q.InBounds) : (received q bytes).InBounds := by
  obtain ⟨h₁, h₂, h₃⟩ := hq
  refine ⟨h₁, ?_, ?_⟩ <;> simp only [received, Packet.moveWritePos, Packet.fill] <;> omega

theorem bufferSize_received : (received q bytes).bufferSize = q.bufferSize := rfl

/-- Bytes that fit behind `Rear` are appended to the data. -/
theorem data_received (hq : q.InBounds) (hfit : q.rear + bytes.length ≤ q.bufferSize) :
    (received q bytes).data = q.data ++ bytes := by
  rw [received, Packet.moveWritePos_of_le _ (by exact hfit)]
  exact Packet.data_fill bytes hq.rear

/-- **The handler parses what `RecvQ` holds with the bytes of the completion**, and leaves `RecvQ`
settled. -/
theorem recvHandler_parses (enc : XorPacketEncoder) (pool : Pool) (bytes : List UInt8)
    (hq : Settled s.recvQ) (hc : s.crashed = false) :
    ∃ r ps ds o, recvHandler enc pool s bytes = some r ∧
      Parses enc.next (received s.recvQ bytes).data ps o ∧
      ((∀ p ∈ ps, p.length ≤ 1004) → ds = ps) ∧ Ended s r ds o ∧ Settled r.recvQ := by
  have hin : (received s.recvQ bytes).InBounds := inBounds_received hq.inBounds
  have hsize : (received s.recvQ bytes).bufferSize = 4096 := hq.bufferSize
  obtain ⟨r, ps, ds, o, hloop, hparse, hds, hend⟩ := recvLoop_parses enc pool
    (s := { s with recvQ := received s.recvQ bytes }) hin (by rw [hsize]; decide)
    (Nat.lt_succ_self _)
  have hset : Settled (rewind r.recvQ) :=
    settled_rewind hend.inBounds (hend.bufferSize.trans hsize)
  have hrc : r.crashed = false := hend.crashed.trans hc
  refine ⟨{ r with recvQ := rewind r.recvQ }, ps, ds, o, ?_, hparse, hds, ?_, hset⟩
  · simp only [recvHandler, hloop, Option.map_some, hrc]
    rfl
  · refine ⟨hset.inBounds, hset.bufferSize.trans hq.bufferSize.symm, hend.crashed, hend.outputs,
      fun rest ho => ?_, hend.rejected⟩
    obtain ⟨h₁, h₂⟩ := hend.waiting rest ho
    exact ⟨data_rewind.trans h₁, h₂⟩

end NetworkLibrary.Receive
