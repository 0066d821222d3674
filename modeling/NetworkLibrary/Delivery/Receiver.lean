import NetworkLibrary.Foundations.Carried
import NetworkLibrary.Receive.Room

/-!
# The receiving end of a stream

The receive side of a session at the end of a stream of frames, whoever writes it: what it has
passed to `OnRecv` are the items that the stream has carried so far (`Passes`). A completion keeps
this, however many bytes it brings (`Passes.deliver`), and as long as something is in the stream a
receive is posted that has room for the next byte (`Passes.exists_deliver`).
-/

namespace NetworkLibrary.Delivery

open Foundations Receive XorPacketEncoder

variable {β : Type*}

/-- The limit of the encoder lets the payloads of a packet pass. -/
def Unlimited (enc : XorPacketEncoder) : Prop := enc.maxPayloadLen = 0 ∨ 1004 ≤ enc.maxPayloadLen

/-- A payload that fits into a packet and is not empty. -/
def Fitting (payload : List UInt8) : Prop := 1 ≤ payload.length ∧ payload.length ≤ 1004

/-- The items are passed to `OnRecv` by the receive side, in the order in which they have been
written into the stream. -/
structure Passes (enc : XorPacketEncoder) (frame view : β → List UInt8) (s : RecvSide)
    (sent passed pending : List β) (stream : List UInt8) : Prop where
  carried : Carried enc.next frame sent passed pending s.recvQ.data stream
  outputs : s.outputs = passed.map fun b => .onRecv (view b)
  settled : Settled s.recvQ
  crashed : s.crashed = false

variable {enc : XorPacketEncoder} {pool : Pool} {frame view : β → List UInt8} {ok : β → Prop}
  {s r : RecvSide} {sent passed pending xs : List β} {stream bytes : List UInt8}

/-- The size of a packet of the pool with zeros in its buffer. -/
theorem bufferSize_zeros : (Packet.new 1024 fun _ => 0).bufferSize = Packet.kBufferDefault := rfl

/-- The parser takes the frames of payloads that fit off a stream. -/
theorem frames_of_fitting (hlimit : Unlimited enc) (key : β → UInt8)
    (hframe : ∀ b, ok b → frame b = enc.frame (key b) (view b))
    (hok : ∀ b, ok b → Fitting (view b)) :
    Frames enc.next frame view ok := by
  have hne : ∀ b, ok b → view b ≠ [] := fun b hb => List.ne_nil_of_length_pos (hok b hb).1
  have hlen : ∀ b, ok b → (view b).length < 2 ^ 16 := fun b hb => (hok b hb).2.trans_lt (by decide)
  have hacc : ∀ b, ok b → enc.Accepts (view b).length := fun b hb => hlimit.imp id fun hle => by
    have hle := UInt16.le_iff_toNat_le.1 hle
    exact (hok b hb).2.trans hle
  refine ⟨rfl, fun b hb rest => ?_, fun b hb s t hs ht => ?_⟩
  · rw [hframe b hb]
    exact enc.next_frame _ (hne b hb) (hlen b hb) (hacc b hb) rest
  · rw [hframe b hb] at hs
    exact enc.next_frame_take (hne b hb) (hlen b hb) (hacc b hb) hs ht

theorem length_frame_of_fitting {rKey : UInt8} {payload : List UInt8} (h : Fitting payload) :
    (enc.frame rKey payload).length ≤ 1009 := by
  have := h.2
  rw [length_frame, headerSize]
  omega

theorem passes_start (hf : Frames enc.next frame view ok) (memory : ℤ → UInt8) :
    Passes enc frame view (initSession memory) [] [] [] [] where
  carried := by
    rw [show (initSession memory).recvQ.data = [] from Packet.data_clear]
    exact Carried.start hf
  outputs := rfl
  settled := settled_initSession memory
  crashed := rfl

namespace Passes

/-- Items are written into the stream. -/
theorem send (h : Passes enc frame view s sent passed pending stream) (xs : List β) :
    Passes enc frame view s (sent ++ xs) passed (pending ++ xs)
      (stream ++ (xs.map frame).flatten) :=
  ⟨h.carried.send xs, h.outputs, h.settled, h.crashed⟩

theorem killSession (h : Passes enc frame view s sent passed pending stream) :
    Passes enc frame view { s with sessionUseFlag := false } sent passed pending stream :=
  ⟨h.carried, h.outputs, h.settled, h.crashed⟩

/-- **A completion** passes on the items whose frames are complete by now. -/
theorem deliver (hf : Frames enc.next frame view ok) (hview : ∀ b, ok b → Fitting (view b))
    (h : Passes enc frame view s sent passed pending (bytes ++ stream)) (hok : ∀ b ∈ pending, ok b)
    (hfit : fitsBehind s bytes = true) (hr : recvHandler enc pool s bytes = some r) :
    ∃ k, Passes enc frame view r sent (passed ++ pending.take k) (pending.drop k) stream ∧
      r.sessionUseFlag = s.sessionUseFlag := by
  obtain ⟨k, rest, hparse, hnext⟩ := h.carried.arrive hf hok
  obtain ⟨r', ps, ds, o, hr', hp, hds, hend, hset⟩ :=
    recvHandler_parses enc pool bytes h.settled h.crashed
  obtain rfl := Option.some.inj (hr'.symm.trans hr)
  rw [data_received h.settled.inBounds (of_decide_eq_true hfit)] at hp
  obtain ⟨rfl, rfl⟩ := hp.unique hparse
  obtain rfl := hds fun p hp => by
    obtain ⟨b, hb, rfl⟩ := List.mem_map.1 hp
    exact (hview b (hok b (List.mem_of_mem_take hb))).2
  obtain ⟨hdata, huse⟩ := hend.waiting rest rfl
  refine ⟨k, ⟨hdata ▸ hnext, ?_, hset, hend.crashed.trans h.crashed⟩, huse⟩
  rw [hend.outputs, h.outputs, kills, List.append_nil, List.map_append, List.map_map]
  rfl

/-- A receive is posted with room for what comes next. -/
theorem room (hf : Frames enc.next frame view ok)
    (h : Passes enc frame view s sent passed pending stream) (hok : ∀ b ∈ pending, ok b)
    (hlen : ∀ b, ok b → (frame b).length ≤ 1009) : s.recvQ.rear < s.recvQ.bufferSize := by
  refine rear_lt_of_settled h.settled ?_
  rcases h.carried.length_held hf hok with hnil | ⟨b, hb, hlt⟩
  · rw [hnil]
    decide
  · have := hlen b (hok b hb)
    omega

/-- **The next byte can be delivered.** -/
theorem exists_deliver (pool : Pool) (hf : Frames enc.next frame view ok)
    (h : Passes enc frame view s sent passed pending stream) (hok : ∀ b ∈ pending, ok b)
    (hlen : ∀ b, ok b → (frame b).length ≤ 1009) (hne : stream ≠ [])
    (huse : s.sessionUseFlag = true) : ∃ r,
      (receiving enc pool).step s (stream.take 1) = some r ∧ fitsBehind s (stream.take 1) = true := by
  have hroom := h.room hf hok hlen
  have hpos := List.length_pos_iff.2 hne
  have hone : (stream.take 1).length = 1 := by
    rw [List.length_take]
    omega
  obtain ⟨r, _, _, _, hr, -⟩ := recvHandler_parses enc pool (stream.take 1) h.settled h.crashed
  have hfree : (1 : ℤ) ≤ s.recvQ.getFreeSize := by
    have := h.settled.inBounds.front
    simp only [Packet.getFreeSize, Packet.getBufferSize, Packet.getDataSize]
    omega
  refine ⟨r, ?_, ?_⟩
  · simp only [receiving, recvPost_of_use h.crashed huse]
    rw [if_pos ⟨by omega, by rw [hone]; exact hfree⟩, hr]
  · simp only [fitsBehind, hone, decide_eq_true_eq]
    omega

end Passes

end NetworkLibrary.Delivery
