import NetworkLibrary.Receive.Bounds

/-!
# The copy of `ShiftDataToFront`

The handler moves what is left over of an unfinished frame to the start of `RecvQ` with `memcpy`,
which the two ranges must not overlap for. The rest starts where the frames that are whole end, so
that the ranges are apart exactly when these frames, with the header reserve if `RecvQ` was empty,
are at least as long as the rest (`copiesApart_shifted_iff`).
-/

namespace NetworkLibrary.Receive

open Foundations XorPacketEncoder

variable (enc : XorPacketEncoder) (pool : Pool)

/-- `RecvQ` when the handler of a completion calls `ShiftDataToFront`, if it does. -/
def shifted (s : RecvSide) (bytes : List UInt8) : Option Packet :=
  let recvQ := received s.recvQ bytes
  (recvLoop enc pool (recvQ.getDataSize.toNat + 1) { s with recvQ := recvQ }).bind fun s =>
    if s.crashed = false ∧ s.recvQ.getDataSize ≠ 0 then some s.recvQ else none

/-- The source and the destination of the `memcpy` in `ShiftDataToFront` do not overlap. -/
def CopiesApart (q : Packet) : Prop :=
  ∀ x, ¬((q.front ≤ x ∧ x < q.rear) ∧ 0 ≤ x ∧ x < q.getDataSize)

/-- The length of the frames of the payloads. -/
def framed (ps : List (List UInt8)) : ℕ := (ps.map fun p => headerSize + p.length).sum

variable {enc pool} {q : Packet} {s r : RecvSide} {bytes : List UInt8} {ps : List (List UInt8)}
  {o : Outcome UInt8} {fuel : ℕ}

theorem framed_cons (p : List UInt8) (ps : List (List UInt8)) :
    framed (p :: ps) = 5 + p.length + framed ps := rfl

/-- What the handler leaves is what `ShiftDataToFront` leaves. -/
theorem recvQ_of_shifted (h : shifted enc pool s bytes = some q) {t : RecvSide}
    (ht : recvHandler enc pool s bytes = some t) : t.recvQ = q.shiftDataToFront := by
  obtain ⟨r, hr, hq⟩ := Option.bind_eq_some_iff.1 h
  obtain ⟨⟨hc, hne⟩, hq⟩ := Option.ite_none_right_eq_some.1 hq
  obtain rfl := Option.some.inj hq
  rw [recvHandler, hr] at ht
  obtain rfl := Option.some.inj ht
  simp only [hc, rewind]
  rw [if_neg Bool.false_ne_true, if_pos hne]

theorem copiesApart_iff (hfront : 0 ≤ q.front) (hlt : q.front < q.rear) :
    CopiesApart q ↔ q.rear - q.front ≤ q.front := by
  constructor
  · intro h
    -- the first byte of the source is the first to be in both ranges
    have := h q.front
    rw [Packet.getDataSize] at this
    omega
  · intro h x hx
    rw [Packet.getDataSize] at hx
    omega

/-- **The loop moves `Front` over the frames that are whole**, and leaves `Rear`. -/
theorem recvLoop_positions (hq : s.recvQ.InBounds) (hsize : s.recvQ.bufferSize < 2 ^ 32)
    (hloop : recvLoop enc pool fuel s = some r) (hparse : Parses enc.next s.recvQ.data ps o) :
    r.recvQ.front = s.recvQ.front + framed ps ∧ r.recvQ.rear = s.recvQ.rear := by
  induction fuel generalizing s ps with
  | zero => cases hloop
  | succ fuel ih =>
    rw [recvLoop] at hloop
    rcases message enc hq hsize (allocPacket (pool s.outputs.length)) with
      ⟨hnext, hcheck⟩ | ⟨hnext, hcheck | ⟨hacc, m, hget⟩⟩ | ⟨payload, m, hnext, hin, hacc, -, hget⟩
    · obtain ⟨rfl, -⟩ := hparse.unique (.more hnext)
      rw [hcheck] at hloop
      obtain rfl := Option.some.inj hloop
      exact ⟨(add_zero _).symm, rfl⟩
    · obtain ⟨rfl, -⟩ := hparse.unique (.reject hnext)
      rw [hcheck] at hloop
      obtain rfl := Option.some.inj hloop
      exact ⟨(add_zero _).symm, rfl⟩
    · obtain ⟨rfl, -⟩ := hparse.unique (.reject hnext)
      rw [hacc] at hloop
      simp only [hget] at hloop
      obtain rfl := Option.some.inj hloop
      exact ⟨(add_zero _).symm, rfl⟩
    · rw [hacc] at hloop
      simp only [hget] at hloop
      cases hparse with
      | more h => simp [hnext] at h
      | reject h => simp [hnext] at h
      | item h hparse =>
        obtain ⟨rfl, rfl⟩ := Next.item.inj (hnext.symm.trans h)
        obtain ⟨hfront, hrear⟩ := ih (s := s.onRecv _ _) hin hsize hloop hparse
        refine ⟨hfront.trans ?_, hrear⟩
        rw [framed_cons, RecvSide.onRecv_recvQ]
        push_cast
        omega

/-- **The ranges are apart exactly when the rest is no longer than what comes before it**: the
header reserve, if `RecvQ` was empty, and the frames that are whole by now. `ps` are their payloads;
the state may have been reached by any completions. -/
theorem copiesApart_shifted_iff (h : (receiving enc pool).Reachable s)
    (hq : shifted enc pool s bytes = some q)
    (hparse : Parses enc.next (received s.recvQ bytes).data ps o) :
    CopiesApart q ↔
      (received s.recvQ bytes).data.length - (framed ps : ℤ) ≤ s.recvQ.front + framed ps := by
  obtain ⟨hset, -⟩ := settled h
  have hin : (received s.recvQ bytes).InBounds := inBounds_received hset.inBounds
  have hsize : (received s.recvQ bytes).bufferSize < 2 ^ 32 := by
    rw [bufferSize_received, hset.bufferSize]
    decide
  obtain ⟨r, hr, hq⟩ := Option.bind_eq_some_iff.1 hq
  obtain ⟨⟨-, hne⟩, hq⟩ := Option.ite_none_right_eq_some.1 hq
  obtain rfl := Option.some.inj hq
  obtain ⟨hfront, hrear⟩ := recvLoop_positions (s := { s with recvQ := received s.recvQ bytes })
    hin hsize hr hparse
  obtain ⟨r', _, _, _, hr', -, -, hend⟩ := recvLoop_parses enc pool
    (s := { s with recvQ := received s.recvQ bytes }) hin hsize (Nat.lt_succ_self _)
  obtain rfl := Option.some.inj (hr.symm.trans hr')
  have hlen := Packet.length_data hin
  have hpos := hend.inBounds.front
  have hle := hend.inBounds.rear
  have hreceived : (received s.recvQ bytes).front = s.recvQ.front := rfl
  simp only [Packet.getDataSize] at hne hlen
  rw [copiesApart_iff hpos (by omega), hfront, hrear, hlen]
  simp only [hreceived]
  omega

theorem copiesApart_shifted_iff_two :
    ∃ q, shifted {} (fun _ => ⟨.new 1024 fun _ => 0, rfl⟩) (initSession fun _ => 0)
        [0x77, 1, 0, 9, 62, 109, 0x77, 2] = some q ∧
      (CopiesApart q ↔ (received (initSession fun _ => 0).recvQ
        [0x77, 1, 0, 9, 62, 109, 0x77, 2]).data.length - (framed [[7]] : ℤ) ≤ 20 + framed [[7]]) := by
  have hdata : (received (initSession fun _ => 0).recvQ [0x77, 1, 0, 9, 62, 109, 0x77, 2]).data =
      [0x77, 1, 0, 9, 62, 109, 0x77, 2] := by decide
  have hparse : Parses ({} : XorPacketEncoder).next [0x77, 1, 0, 9, 62, 109, 0x77, 2] [[7]]
      (.waiting [0x77, 2]) := .item rfl (.more rfl)
  have hsome : (shifted {} (fun _ => ⟨.new 1024 fun _ => 0, rfl⟩) (initSession fun _ => 0)
      [0x77, 1, 0, 9, 62, 109, 0x77, 2]).isSome = true := by decide +kernel
  obtain ⟨q, hq⟩ := Option.isSome_iff_exists.1 hsome
  exact ⟨q, hq, copiesApart_shifted_iff (.start ⟨_, rfl⟩) hq (hdata ▸ hparse)⟩

/-- **Thirty bytes of a longer frame** are copied over themselves. -/
theorem exists_copies_overlap :
    ¬∀ (enc : XorPacketEncoder) (pool : Pool) (memory : ℤ → UInt8) (fs cs : List (List UInt8))
      (bytes : List UInt8) (s : RecvSide) (q : Packet),
      (∀ f ∈ fs, ∃ rKey payload, f = enc.frame rKey payload ∧ enc.Accepts payload.length) →
      cs.flatten ++ bytes <+: fs.flatten →
      (receiving enc pool).run (fun _ _ => true) (initSession memory) cs = some s →
      shifted enc pool s bytes = some q → CopiesApart q := by
  intro hall
  let frame := ({} : XorPacketEncoder).frame 0 (List.replicate 40 0)
  have hsome : (shifted {} (fun _ => ⟨.new 1024 fun _ => 0, rfl⟩) (initSession fun _ => 0)
      (frame.take 30)).any (fun q => q.front = 20 ∧ q.rear = 50) = true := by decide +kernel
  obtain ⟨q, hq, hpos⟩ := (Option.any_eq_true _ _).1 hsome
  obtain ⟨hfront, hrear⟩ := of_decide_eq_true hpos
  have hframe : ∀ f ∈ [frame], ∃ rKey payload, f = ({} : XorPacketEncoder).frame rKey payload ∧
      ({} : XorPacketEncoder).Accepts payload.length :=
    List.forall_mem_singleton.2 ⟨0, _, rfl, .inr (by decide)⟩
  have h := hall {} _ _ [frame] [] _ _ q hframe (by simpa using List.take_prefix ..) rfl hq
  rw [copiesApart_iff (by omega) (by omega)] at h
  omega

end NetworkLibrary.Receive
