import NetworkLibrary.Receive.Handler

/-!
# One message of the stream

What `CheckPacketMessageComplete` and `GetPacketMessage` do to `RecvQ` is `next` on its data
(`message`). The memory of `RecvQ` changes only inside the frame that is taken off, so that the
rest of the data stays as it was received.
-/

namespace NetworkLibrary.Receive

open Foundations XorPacketEncoder

variable {enc : XorPacketEncoder} {q : Packet} {n : ℕ}

/-- The header and the body of the data. -/
theorem data_eq_cons (h : 4 ≤ q.getDataSize.toNat) :
    q.data = q.buffer q.front :: q.buffer (q.front + 1) :: q.buffer (q.front + 2) ::
      q.buffer (q.front + 3) :: load q.buffer (q.front + 4) (q.getDataSize.toNat - 4) := by
  obtain ⟨k, hk⟩ := Nat.exists_eq_add_of_le h
  have h₂ : q.front + 1 + 1 = q.front + 2 := by omega
  have h₃ : q.front + 2 + 1 = q.front + 3 := by omega
  have h₄ : q.front + ((4 : ℕ) : ℤ) = q.front + 4 := rfl
  rw [Packet.data, hk, Nat.add_sub_cancel_left, load_add, h₄]
  simp only [load_succ, load_zero, h₂, h₃, List.cons_append, List.nil_append]

/-- `CheckPacketMessageComplete` with the size of the data as a natural number. -/
theorem check_eq (enc : XorPacketEncoder) (hq : q.InBounds) (hsize : q.bufferSize < 2 ^ 32) :
    checkPacketMessageComplete enc q =
      if q.getDataSize.toNat ≤ 5 then (false, false)
      else if q.buffer q.front ≠ enc.headerCode then (false, true)
      else if enc.maxPayloadLen ≠ 0 ∧ headerLen q.buffer q.front > enc.maxPayloadLen.toNat then
        (false, true)
      else if q.getDataSize.toNat < 5 + headerLen q.buffer q.front then (false, false)
      else (true, false) := by
  have hmod : (q.getDataSize % 2 ^ 32).toNat = q.getDataSize.toNat := by
    rw [Int.emod_eq_of_lt]
    · exact sub_nonneg.2 hq.rear
    · have := hq.front
      have := hq.size
      unfold Packet.getDataSize
      omega
  simp only [checkPacketMessageComplete, hmod, verifyHeaderMagic, peekPayloadLength,
    Packet.getReadBufferPtr, headerSize]
  by_cases h₁ : q.getDataSize.toNat ≤ 5
  · rw [if_pos h₁, if_pos h₁]
  rw [if_neg h₁, if_neg h₁]
  by_cases h₂ : q.buffer q.front = enc.headerCode
  · by_cases h₃ : enc.maxPayloadLen ≠ 0 ∧ headerLen q.buffer q.front > enc.maxPayloadLen.toNat
    · simp [h₂, h₃]
    · simp [h₂, h₃]
  · simp [h₂]

/-- `next` on the data, where `m` is the buffer after `Decode`. -/
theorem next_data (enc : XorPacketEncoder) (h : 5 < q.getDataSize.toNat) {m : ℤ → UInt8}
    (hm : load m (q.front + 4) (headerLen q.buffer q.front + 1) = enc.deframe (q.buffer (q.front + 3))
      (load q.buffer (q.front + 4) (headerLen q.buffer q.front + 1))) :
    enc.next q.data =
      if q.buffer q.front ≠ enc.headerCode then .reject
      else if enc.maxPayloadLen ≠ 0 ∧ headerLen q.buffer q.front > enc.maxPayloadLen.toNat then
        .reject
      else if q.getDataSize.toNat < 5 + headerLen q.buffer q.front then .more
      else if m (q.front + 4) = (load m (q.front + 5) (headerLen q.buffer q.front)).sum then
        .item (load m (q.front + 5) (headerLen q.buffer q.front))
          (load q.buffer (q.front + (5 + headerLen q.buffer q.front))
            (q.getDataSize.toNat - (5 + headerLen q.buffer q.front)))
      else .reject := by
  set len := headerLen q.buffer q.front with hlen
  have h5 : q.front + 4 + 1 = q.front + 5 := by omega
  rw [data_eq_cons (by omega)]
  simp only [next, length_load]
  rw [if_neg (by omega)]
  simp only [show (q.buffer (q.front + 1)).toNat + 256 * (q.buffer (q.front + 2)).toNat = len from rfl]
  by_cases h₁ : q.buffer q.front ≠ enc.headerCode
  · rw [if_pos h₁, if_pos h₁]
  rw [if_neg h₁, if_neg h₁]
  by_cases h₂ : enc.maxPayloadLen ≠ 0 ∧ len > enc.maxPayloadLen.toNat
  · rw [if_pos h₂, if_pos h₂]
  rw [if_neg h₂, if_neg h₂]
  by_cases h₃ : q.getDataSize.toNat < 5 + len
  · rw [if_pos (by omega), if_pos h₃]
  have hrest : q.front + 4 + ((len + 1 : ℕ) : ℤ) = q.front + (5 + len) := by
    push_cast
    omega
  rw [if_neg (by omega), if_neg h₃, take_load (by omega), drop_load (by omega), ← hm, load_succ, h5,
    hrest, show q.getDataSize.toNat - 4 - (len + 1) = q.getDataSize.toNat - (5 + len) by omega]

/-- `CheckPacketMessageComplete` accepts the message at the front of `RecvQ`. -/
def Accepted (enc : XorPacketEncoder) (q : Packet) : Prop :=
  checkPacketMessageComplete enc q = (true, false)

theorem accepted_iff (hq : q.InBounds) (hsize : q.bufferSize < 2 ^ 32) :
    Accepted enc q ↔ 5 < q.getDataSize.toNat ∧ q.buffer q.front = enc.headerCode ∧
      ¬(enc.maxPayloadLen ≠ 0 ∧ headerLen q.buffer q.front > enc.maxPayloadLen.toNat) ∧
      5 + headerLen q.buffer q.front ≤ q.getDataSize.toNat := by
  rw [Accepted, check_eq enc hq hsize]
  generalize q.getDataSize.toNat = n
  split_ifs <;> simp_all

theorem end_le_rear (hq : q.InBounds) (hn : 5 + n ≤ q.getDataSize.toNat) :
    q.front + (5 + n) ≤ q.rear := by
  have := hq.rear
  unfold Packet.getDataSize at hn
  omega

/-- `GetPacketMessage` on an accepted message, where `m` is the buffer after `Decode`. -/
theorem getPacketMessage_eq (hq : q.InBounds) (hsize : q.bufferSize < 2 ^ 32) (h : Accepted enc q) :
    ∃ m : ℤ → UInt8,
      (∀ x, q.front + 4 + headerLen q.buffer q.front < x → m x = q.buffer x) ∧
      load m (q.front + 4) (headerLen q.buffer q.front + 1) =
        enc.deframe (q.buffer (q.front + 3))
          (load q.buffer (q.front + 4) (headerLen q.buffer q.front + 1)) ∧
      ((enc.decode q).1 = true ↔
        m (q.front + 4) = (load m (q.front + 5) (headerLen q.buffer q.front)).sum) ∧
      ∀ packet : Packet, getPacketMessage enc packet q =
        if m (q.front + 4) = (load m (q.front + 5) (headerLen q.buffer q.front)).sum then
          .ok ((packet.fill (load m (q.front + 5) (headerLen q.buffer q.front)) packet.rear).moveWritePos
              (headerLen q.buffer q.front)).2
            { q with buffer := m, front := q.front + (5 + headerLen q.buffer q.front) }
        else .decodeFailed { q with buffer := m } := by
  obtain ⟨-, -, hlimit, hend⟩ := (accepted_iff hq hsize).1 h
  set len := headerLen q.buffer q.front with hlen
  have hrear := end_le_rear hq hend
  obtain ⟨m, hout, hload, hdec⟩ := enc.decode_eq hlen.symm (by omega)
  refine ⟨m, fun x hx => hout x (.inr hx), hload, ?_, fun packet => ?_⟩
  · rw [hdec]
    split_ifs with hc
    · simp [hc]
    · simp [hc]
  have hpeek : enc.peekPayloadLength q.buffer q.getReadBufferPtr = some len := by
    rw [peekPayloadLength]
    exact if_neg hlimit
  by_cases hc : m (q.front + 4) = (load m (q.front + 5) len).sum
  · have hget := Packet.getData_of_le (p := { q with buffer := m, front := q.front + 5 })
      len (by dsimp only; omega)
    rw [if_pos hc] at hdec
    rw [if_pos hc]
    simp only [getPacketMessage, hpeek, hdec, hget, Packet.getWriteBufferPtr, Int.toNat_natCast]
    simp [add_assoc]
  · rw [if_neg hc] at hdec
    rw [if_neg hc]
    simp only [getPacketMessage, hpeek, hdec]

theorem next_of_short (h : q.getDataSize.toNat ≤ 5) : enc.next q.data = .more := by
  have hlen : q.data.length ≤ 5 := by rwa [Packet.data, length_load]
  generalize q.data = data at hlen ⊢
  rcases data with _ | ⟨code, _ | ⟨lo, _ | ⟨hi, _ | ⟨rKey, body⟩⟩⟩⟩
  case nil | cons.nil | cons.cons.nil | cons.cons.cons.nil => rfl
  case cons.cons.cons.cons =>
    simp only [List.length_cons] at hlen
    rw [next, if_pos (by omega)]

/-- **One message.** `CheckPacketMessageComplete` and `GetPacketMessage` answer as `next` does on
the data of `RecvQ`, and leave in `RecvQ` what `next` leaves. -/
theorem message (enc : XorPacketEncoder) (hq : q.InBounds) (hsize : q.bufferSize < 2 ^ 32)
    (packet : Packet) :
    enc.next q.data = .more ∧ checkPacketMessageComplete enc q = (false, false) ∨
      enc.next q.data = .reject ∧ (checkPacketMessageComplete enc q = (false, true) ∨
        Accepted enc q ∧ ∃ m, getPacketMessage enc packet q = .decodeFailed { q with buffer := m }) ∨
      ∃ payload m,
        let q' : Packet := { q with buffer := m, front := q.front + (5 + payload.length) }
        enc.next q.data = .item payload q'.data ∧ q'.InBounds ∧ Accepted enc q ∧
          payload.length = headerLen q.buffer q.front ∧
          getPacketMessage enc packet q =
            .ok ((packet.fill payload packet.rear).moveWritePos payload.length).2 q' := by
  rcases Nat.lt_or_ge 5 q.getDataSize.toNat with hlong | hshort
  swap
  · exact .inl ⟨next_of_short hshort, by rw [check_eq enc hq hsize, if_pos hshort]⟩
  by_cases hacc : Accepted enc q
  · obtain ⟨m, hout, hload, -, hget⟩ := getPacketMessage_eq hq hsize hacc
    obtain ⟨-, hcode, hlimit, hend⟩ := (accepted_iff hq hsize).1 hacc
    have hnext := next_data enc hlong hload
    set len := headerLen q.buffer q.front with hlen
    rw [if_neg (not_not.2 hcode), if_neg hlimit, if_neg (by omega)] at hnext
    by_cases hc : m (q.front + 4) = (load m (q.front + 5) len).sum
    · rw [if_pos hc] at hnext
      have hget := hget packet
      rw [if_pos hc] at hget
      have hplen : (load m (q.front + 5) len).length = len := length_load ..
      have hrest : load q.buffer (q.front + (5 + len)) (q.getDataSize.toNat - (5 + len)) =
          ({ q with buffer := m, front := q.front + (5 + len) } : Packet).data := by
        have hk : q.getDataSize.toNat - (5 + len) =
            ({ q with buffer := m, front := q.front + (5 + len) } : Packet).getDataSize.toNat := by
          unfold Packet.getDataSize
          dsimp only
          omega
        rw [Packet.data, ← hk]
        exact load_congr fun x hx _ => (hout x (by omega)).symm
      refine .inr (.inr ⟨load m (q.front + 5) len, m, ?_⟩)
      rw [hplen]
      refine ⟨hrest ▸ hnext, ⟨?_, end_le_rear hq hend, hq.size⟩, hacc, rfl, hget⟩
      have := hq.front
      dsimp only
      omega
    · rw [if_neg hc] at hnext
      have hget := hget packet
      rw [if_neg hc] at hget
      exact .inr (.inl ⟨hnext, .inr ⟨hacc, m, hget⟩⟩)
  · -- the message is not accepted, and `next` does not look at its body
    have hload := load_store_self q.buffer (q.front + 4) (enc.deframe (q.buffer (q.front + 3))
      (load q.buffer (q.front + 4) (headerLen q.buffer q.front + 1)))
    rw [length_deframe, length_load] at hload
    have hnext := next_data enc hlong hload
    have hcheck := check_eq enc hq hsize
    rw [Accepted] at hacc
    rw [if_neg (by omega)] at hcheck
    split_ifs at hcheck hnext
    · exact .inr (.inl ⟨hnext, .inl hcheck⟩)
    · exact .inr (.inl ⟨hnext, .inl hcheck⟩)
    · exact .inl ⟨hnext, hcheck⟩
    · exact absurd hcheck hacc
    · exact absurd hcheck hacc

/-- A pooled packet holds the payload that was copied into it, as long as it fits. -/
theorem data_allocPacket (pooled : PooledPacket) (payload : List UInt8)
    (h : payload.length ≤ 1004) :
    (((allocPacket pooled).fill payload (allocPacket pooled).rear).moveWritePos payload.length).2.data =
      payload := by
  have hsize := pooled.size
  have hfit : ((allocPacket pooled).fill payload (allocPacket pooled).rear).rear + payload.length ≤
      ((allocPacket pooled).fill payload (allocPacket pooled).rear).bufferSize := by
    show Packet.kHeaderDefault + (payload.length : ℤ) ≤ pooled.bufferSize
    rw [hsize, Packet.kHeaderDefault, Packet.kBufferDefault]
    omega
  rw [Packet.moveWritePos_of_le _ hfit]
  have hempty : (allocPacket pooled).data = [] := Packet.data_clear
  have := Packet.data_fill (p := allocPacket pooled) payload le_rfl
  rwa [hempty, List.nil_append] at this

end NetworkLibrary.Receive
