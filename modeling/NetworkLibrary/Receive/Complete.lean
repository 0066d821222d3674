import NetworkLibrary.Receive.Messages

/-!
# When a message is complete

`CheckPacketMessageComplete` on the bytes that `RecvQ` holds: it recognises a frame that has arrived,
waits for one that has not, and kills the session for nothing but a bad header (`recognises_iff`).
The one exception is a frame with an empty payload that nothing follows: the test of the header asks
for more bytes than the header has (`exists_unrecognised`).
-/

namespace NetworkLibrary.Receive

open Foundations XorPacketEncoder

/-- A frame that the encoder accepts: `Code`, `Len`, `RKey`, `Checksum` and the payload. -/
def IsFrame (enc : XorPacketEncoder) : List UInt8 → Prop
  | code :: lo :: hi :: _rKey :: _checksum :: payload =>
    code = enc.headerCode ∧ enc.Accepts (lo.toNat + 256 * hi.toNat) ∧
      payload.length = lo.toNat + 256 * hi.toNat
  | _ => False

/-- The bytes show that no acceptable frame begins with them. -/
def BadHeader (enc : XorPacketEncoder) (s : List UInt8) : Prop :=
  (∃ code rest, s = code :: rest ∧ code ≠ enc.headerCode) ∨
    ∃ code lo hi rest, s = code :: lo :: hi :: rest ∧ ¬enc.Accepts (lo.toNat + 256 * hi.toNat)

/-- What `CheckPacketMessageComplete` is for. -/
structure Recognises (enc : XorPacketEncoder) (q : Packet) : Prop where
  whole : ∀ s rest, IsFrame enc s → q.data = s ++ rest →
    checkPacketMessageComplete enc q = (true, false)
  part : ∀ t, t ≠ [] → IsFrame enc (q.data ++ t) → checkPacketMessageComplete enc q = (false, false)
  kill : (checkPacketMessageComplete enc q).2 = true → BadHeader enc q.data

variable {enc : XorPacketEncoder} {q : Packet} {s rest : List UInt8}

theorem accepts_iff {n : ℕ} :
    ¬(enc.maxPayloadLen ≠ 0 ∧ n > enc.maxPayloadLen.toNat) ↔ enc.Accepts n := by
  rw [Accepts, not_and_or, not_not, not_lt]

/-- Every frame that `Encode` makes from a payload within the limit is one. -/
theorem isFrame_frame (rKey : UInt8) {payload : List UInt8} (hlen : payload.length < 2 ^ 16)
    (hacc : enc.Accepts payload.length) : IsFrame enc (enc.frame rKey payload) := by
  refine ⟨rfl, ?_, ?_⟩
  · rwa [len_eq hlen]
  · rw [len_eq hlen, length_encipher, length_encipher]

theorem length_of_isFrame (h : IsFrame enc s) : 5 ≤ s.length := by
  rcases s with _ | ⟨code, _ | ⟨lo, _ | ⟨hi, _ | ⟨rKey, _ | ⟨checksum, payload⟩⟩⟩⟩⟩
  case cons.cons.cons.cons.cons =>
    simp only [List.length_cons]
    omega
  all_goals exact h.elim

/-- `CheckPacketMessageComplete` on data of more than 5 bytes, whose header is at the front. -/
theorem check_data (hq : q.InBounds) (hsize : q.bufferSize < 2 ^ 32)
    {code lo hi rKey : UInt8} {body : List UInt8}
    (hdata : q.data = code :: lo :: hi :: rKey :: body) (hlong : 5 < q.data.length) :
    checkPacketMessageComplete enc q =
      if code ≠ enc.headerCode then (false, true)
      else if enc.maxPayloadLen ≠ 0 ∧ lo.toNat + 256 * hi.toNat > enc.maxPayloadLen.toNat then
        (false, true)
      else if q.data.length < 5 + (lo.toNat + 256 * hi.toNat) then (false, false)
      else (true, false) := by
  have hlen : q.data.length = q.getDataSize.toNat := length_load ..
  have hcons := data_eq_cons (q := q) (by omega)
  rw [hdata] at hcons
  simp only [List.cons.injEq] at hcons
  obtain ⟨rfl, rfl, rfl, -, -⟩ := hcons
  rw [check_eq enc hq hsize, if_neg (by omega), hlen]
  rfl

theorem check_short (hq : q.InBounds) (hsize : q.bufferSize < 2 ^ 32) (h : q.data.length ≤ 5) :
    checkPacketMessageComplete enc q = (false, false) := by
  have hlen : q.data.length = q.getDataSize.toNat := length_load ..
  rw [check_eq enc hq hsize, if_pos (by omega)]

/-- The header that the data of `RecvQ` begins with. -/
theorem exists_header (h : 5 < q.data.length) :
    ∃ code lo hi rKey checksum payload, q.data = code :: lo :: hi :: rKey :: checksum :: payload := by
  generalize q.data = s at h ⊢
  rcases s with _ | ⟨code, _ | ⟨lo, _ | ⟨hi, _ | ⟨rKey, _ | ⟨checksum, payload⟩⟩⟩⟩⟩
  case cons.cons.cons.cons.cons => exact ⟨_, _, _, _, _, _, rfl⟩
  all_goals
    simp only [List.length_cons, List.length_nil] at h
    omega

/-- **A message is recognised when it is complete, waited for while it is not, and the session is
killed for a bad header only**: exactly when `RecvQ` does not hold the 5 bytes of a frame with an
empty payload and nothing else. -/
theorem recognises_iff (enc : XorPacketEncoder) (hq : q.InBounds) (hsize : q.bufferSize < 2 ^ 32) :
    Recognises enc q ↔ ¬(IsFrame enc q.data ∧ q.data.length = 5) := by
  constructor
  · rintro h ⟨hframe, hlen⟩
    have hcheck := h.whole q.data [] hframe (List.append_nil _).symm
    rw [check_short hq hsize (by omega)] at hcheck
    cases hcheck
  intro hne
  refine ⟨fun s rest hframe hdata => ?_, fun t ht hframe => ?_, fun hkill => ?_⟩
  · have hlong : 5 < q.data.length := by
      have hle := length_of_isFrame hframe
      have hlen := congrArg List.length hdata
      rw [List.length_append] at hlen
      by_contra hshort
      have hrest : rest = [] := List.eq_nil_of_length_eq_zero (by omega)
      subst hrest
      rw [List.append_nil] at hdata
      exact hne ⟨hdata ▸ hframe, by omega⟩
    rcases s with _ | ⟨code, _ | ⟨lo, _ | ⟨hi, _ | ⟨rKey, _ | ⟨checksum, payload⟩⟩⟩⟩⟩
    case cons.cons.cons.cons.cons =>
      obtain ⟨hcode, hacc, hpayload⟩ := hframe
      have hend : ¬q.data.length < 5 + (lo.toNat + 256 * hi.toNat) := by
        rw [hdata, List.length_append]
        simp only [List.length_cons]
        omega
      rw [check_data hq hsize hdata hlong, if_neg (not_not.2 hcode), if_neg (accepts_iff.2 hacc),
        if_neg hend]
    all_goals exact hframe.elim
  · rcases Nat.lt_or_ge 5 q.data.length with hlong | hshort
    · obtain ⟨code, lo, hi, rKey, checksum, payload, hdata⟩ := exists_header hlong
      rw [hdata] at hframe
      obtain ⟨hcode, hacc, hpayload⟩ := hframe
      have hmore : q.data.length < 5 + (lo.toNat + 256 * hi.toNat) := by
        have hpos := List.length_pos_iff.2 ht
        have hlen : payload.length + t.length = lo.toNat + 256 * hi.toNat :=
          (List.length_append ..).symm.trans hpayload
        rw [hdata]
        simp only [List.length_cons]
        omega
      rw [check_data hq hsize hdata hlong, if_neg (not_not.2 hcode), if_neg (accepts_iff.2 hacc),
        if_pos hmore]
    · exact check_short hq hsize hshort
  · rcases Nat.lt_or_ge 5 q.data.length with hlong | hshort
    · obtain ⟨code, lo, hi, rKey, checksum, payload, hdata⟩ := exists_header hlong
      rw [check_data hq hsize hdata hlong] at hkill
      split_ifs at hkill with hcode hmax
      · exact .inl ⟨code, _, hdata, hcode⟩
      · exact .inr ⟨code, lo, hi, _, hdata, mt accepts_iff.2 (not_not.2 hmax)⟩
    · rw [check_short hq hsize hshort] at hkill
      cases hkill

/-- `RecvQ` of a session whose first completion brings the given bytes. -/
def arrived (bytes : List UInt8) : Packet := received (initSession fun _ => 0).recvQ bytes

theorem inBounds_arrived {bytes : List UInt8} (h : bytes.length ≤ 4076) :
    (arrived bytes).InBounds := by
  refine ⟨?_, ?_, ?_⟩ <;>
    simp only [arrived, received, Packet.moveWritePos, Packet.fill, initSession, Packet.new,
      Packet.clear, Packet.kHeaderDefault] <;> omega

theorem recognises_iff_two :
    Recognises {} (arrived [0x77, 1, 0, 9, 62, 109]) ↔
      ¬(IsFrame {} (arrived [0x77, 1, 0, 9, 62, 109]).data ∧
        (arrived [0x77, 1, 0, 9, 62, 109]).data.length = 5) :=
  recognises_iff {} (inBounds_arrived (by decide)) (by decide)

/-- **A frame with an empty payload is not recognised** when its last byte arrives. -/
theorem exists_unrecognised :
    ¬∀ (enc : XorPacketEncoder) (q : Packet), q.InBounds → q.bufferSize < 2 ^ 32 →
      Recognises enc q := by
  intro hall
  let frame := ({} : XorPacketEncoder).frame 9 []
  have hdata : (arrived frame).data = frame := by decide
  have h := hall {} (arrived frame) (inBounds_arrived (by decide)) (by decide)
  have hcheck := h.whole _ [] (isFrame_frame 9 (by decide) (.inr (by decide)))
    (hdata.trans (List.append_nil _).symm)
  exact absurd hcheck (by decide)

end NetworkLibrary.Receive
