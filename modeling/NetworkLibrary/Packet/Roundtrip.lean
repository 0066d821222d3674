import NetworkLibrary.Packet.XorPacketEncoder

/-!
# `Decode` against `Encode`

`Decode` is the inverse of `Encode` in place. It accepts the bytes of a frame exactly if `Encode`
writes them for some payload, and then leaves that payload in front of `Front`; what lies around
the checksum and the payload is not touched.

The argument is about lists: the two passes of `Decode` undo the two of `Encode`
(`deframe_body`), and conversely the bytes that `Decode` finds, enciphered again, are the bytes it
read (`frame_deframe`).
-/

namespace NetworkLibrary

open Foundations

namespace XorPacketEncoder

variable (enc : XorPacketEncoder) {p q : Packet} {n : ℕ} {rKey : UInt8} {payload : List UInt8}

/-- A packet that holds a payload which is still to be encoded, with room for the header. -/
structure Ready (payload : List UInt8) (q : Packet) : Prop where
  inBounds : q.InBounds
  room : headerSize ≤ q.front
  plain : q.encodeFlag = false
  data : q.data = payload

/-- `bytes` is what `Encode` writes for a payload with the random byte `rKey`. -/
def Writes (rKey : UInt8) (payload bytes : List UInt8) : Prop :=
  ∃ q, Ready payload q ∧ (enc.encode rKey q).data = bytes

theorem exists_ready (payload : List UInt8) : ∃ q, Ready payload q := by
  have hdata : ((5 : ℤ) + payload.length - 5).toNat = payload.length := by omega
  refine ⟨{ Packet.new 0 fun _ => 0 with
    bufferSize := 5 + payload.length
    front := 5
    rear := 5 + payload.length
    buffer := store (fun _ => 0) 5 payload }, ⟨?_, ?_, ?_⟩, le_rfl, rfl, ?_⟩
  · exact Int.zero_le_ofNat 5
  · exact le_add_of_nonneg_right (Int.natCast_nonneg _)
  · exact le_rfl
  · rw [Packet.data, Packet.getDataSize, hdata]
    exact load_store_self _ 5 payload

theorem writes_iff {bytes : List UInt8} (hlen : payload.length < 2 ^ 16) :
    enc.Writes rKey payload bytes ↔ bytes = enc.frame rKey payload := by
  constructor
  · rintro ⟨q, hq, rfl⟩
    rw [enc.data_encode rKey hq.plain hq.inBounds.rear (by rwa [hq.data]), hq.data]
  · rintro rfl
    obtain ⟨q, hq⟩ := exists_ready payload
    refine ⟨q, hq, ?_⟩
    rw [enc.data_encode rKey hq.plain hq.inBounds.rear (by rwa [hq.data]), hq.data]

theorem headerLen_lt (m : ℤ → UInt8) (header : ℤ) : headerLen m header < 2 ^ 16 := by
  have hlo := (m (header + 1)).toNat_lt
  have hhi := (m (header + 2)).toNat_lt
  unfold headerLen
  omega

/-- The length of a header determines its two bytes. -/
theorem len_bytes {m : ℤ → UInt8} {header : ℤ} (hn : headerLen m header = n) :
    UInt8.ofNat n = m (header + 1) ∧ UInt8.ofNat (n / 256) = m (header + 2) := by
  have hlo := (m (header + 1)).toNat_lt
  have hhi := (m (header + 2)).toNat_lt
  unfold headerLen at hn
  constructor
  · apply UInt8.toNat_inj.1
    rw [UInt8.toNat_ofNat']
    omega
  · apply UInt8.toNat_inj.1
    rw [UInt8.toNat_ofNat']
    omega

/-- Enciphering again what was deciphered. -/
theorem frame_deframe {body : List UInt8} (h : enc.deframe rKey body = payload.sum :: payload) :
    encipher (xorWith enc.encryptKey) 0 1
      (encipher (xorWith rKey) 0 1 (payload.sum :: payload)) = body := by
  rw [← h, deframe, encipher_decipher (xorWith_xorWith _), encipher_decipher (xorWith_xorWith _)]

/-- The bytes of a frame, from its header on. -/
theorem load_frame (hcode : p.buffer p.front = enc.headerCode)
    (hn : headerLen p.buffer p.front = n) :
    load p.buffer p.front (headerSize + n) =
      [enc.headerCode, UInt8.ofNat n, UInt8.ofNat (n / 256), p.buffer (p.front + 3)] ++
        load p.buffer (p.front + 4) (n + 1) := by
  obtain ⟨hlo, hhi⟩ := len_bytes hn
  have hsize : headerSize + n = 4 + (n + 1) := by
    unfold headerSize
    omega
  rw [hsize, load_add, hlo, hhi, ← hcode]
  simp [load_succ, add_assoc]

/-- A frame is that of `payload` exactly if it deciphers to the checksum and the payload. -/
theorem load_eq_frame_iff (hcode : p.buffer p.front = enc.headerCode)
    (hn : headerLen p.buffer p.front = n) (hlen : payload.length = n) :
    load p.buffer p.front (headerSize + n) = enc.frame (p.buffer (p.front + 3)) payload ↔
      enc.deframe (p.buffer (p.front + 3)) (load p.buffer (p.front + 4) (n + 1)) =
        payload.sum :: payload := by
  rw [enc.load_frame hcode hn, frame, hlen, List.append_right_inj]
  constructor
  · intro h
    rw [h, deframe_body]
  · intro h
    exact (enc.frame_deframe h).symm

/-! ## `Decode` on a frame -/

/-- `Decode` writes only where the checksum and the payload are. -/
theorem decode_outside {x : ℤ} (hn : headerLen p.buffer p.front = n)
    (hrear : p.front + headerSize ≤ p.rear)
    (hx : x < p.front + 4 ∨ p.front + headerSize + n ≤ x) :
    (enc.decode p).2.buffer x = p.buffer x := by
  obtain ⟨m, hout, -, hdec⟩ := enc.decode_eq hn hrear
  have hx' : x < p.front + 4 ∨ p.front + 4 + n < x := by
    simp only [headerSize] at hx
    omega
  rw [hdec]
  split_ifs
  · exact hout x hx'
  · exact hout x hx'

/-- `Decode` deciphers the checksum and the payload where they are. -/
theorem load_decode (hn : headerLen p.buffer p.front = n) (hrear : p.front + headerSize ≤ p.rear) :
    load (enc.decode p).2.buffer (p.front + 4) (n + 1) =
      enc.deframe (p.buffer (p.front + 3)) (load p.buffer (p.front + 4) (n + 1)) := by
  obtain ⟨m, -, hload, hdec⟩ := enc.decode_eq hn hrear
  rw [hdec]
  split_ifs
  · exact hload
  · exact hload

/-- `Decode` accepts exactly if the bytes decipher to a checksum and the payload it is the sum
of. -/
theorem decode_eq_true_iff (hn : headerLen p.buffer p.front = n)
    (hrear : p.front + headerSize ≤ p.rear) :
    (enc.decode p).1 = true ↔ ∃ payload : List UInt8,
      enc.deframe (p.buffer (p.front + 3)) (load p.buffer (p.front + 4) (n + 1)) =
        payload.sum :: payload := by
  obtain ⟨m, -, hload, hdec⟩ := enc.decode_eq hn hrear
  have hpayload : p.front + 4 + 1 = p.front + 5 := by omega
  rw [load_succ, hpayload] at hload
  rw [hdec, ← hload]
  constructor
  · intro h
    refine ⟨load m (p.front + 5) n, ?_⟩
    by_cases hc : m (p.front + 4) = (load m (p.front + 5) n).sum
    · rw [hc]
    · rw [if_neg hc] at h
      cases h
  · rintro ⟨payload, h⟩
    obtain ⟨hhead, htail⟩ := List.cons.inj h
    rw [if_pos (by rw [hhead, htail])]

/-- What `Decode` leaves of a frame it accepts. -/
theorem decode_of_deframe (hn : headerLen p.buffer p.front = n)
    (hrear : p.front + headerSize ≤ p.rear)
    (h : enc.deframe (p.buffer (p.front + 3)) (load p.buffer (p.front + 4) (n + 1)) =
      payload.sum :: payload) :
    ∃ m : ℤ → UInt8, enc.decode p = (true, { p with buffer := m, front := p.front + headerSize }) ∧
      load m (p.front + headerSize) n = payload := by
  obtain ⟨m, -, hload, hdec⟩ := enc.decode_eq hn hrear
  have hpayload : p.front + 4 + 1 = p.front + 5 := by omega
  rw [load_succ, hpayload, h] at hload
  obtain ⟨hhead, htail⟩ := List.cons.inj hload
  refine ⟨m, ?_, htail⟩
  rw [hdec, if_pos (by rw [hhead, htail])]
  rfl

/-- A packet after `Encode`: its data is a frame, whose header names the payload. -/
theorem encode_frame (rKey : UInt8) (hq : Ready payload q) (hlen : payload.length < 2 ^ 16) :
    (enc.encode rKey q).front = q.front - headerSize ∧ (enc.encode rKey q).rear = q.rear ∧
      load (enc.encode rKey q).buffer (q.front - headerSize) (headerSize + payload.length) =
        enc.frame rKey payload := by
  have hlenq : q.data.length < 2 ^ 16 := by rwa [hq.data]
  have hsize : q.getDataSize.toNat = payload.length := by rw [← hq.data, Packet.data, length_load]
  have hdata := enc.data_encode rKey hq.plain hq.inBounds.rear hlenq
  obtain ⟨m, -, -, -, he⟩ := enc.encode_eq rKey hq.plain hq.inBounds.rear hsize hlen
  have hfront : (enc.encode rKey q).front = q.front - headerSize := by
    rw [he]
    rfl
  have hrear : (enc.encode rKey q).rear = q.rear := by rw [he]
  have hframe : (q.rear - (q.front - headerSize)).toNat = headerSize + payload.length := by
    have := hq.inBounds.rear
    unfold Packet.getDataSize at hsize
    omega
  refine ⟨hfront, hrear, ?_⟩
  rw [Packet.data, Packet.getDataSize, hfront, hrear, hframe, hq.data] at hdata
  exact hdata

/-- The header that a frame in memory starts with, and the bytes after it. -/
theorem frame_header {m : ℤ → UInt8} {a : ℤ} (hlen : payload.length < 2 ^ 16)
    (h : load m a (headerSize + payload.length) = enc.frame rKey payload) :
    m a = enc.headerCode ∧ headerLen m a = payload.length ∧ m (a + 3) = rKey ∧
      load m (a + 4) (payload.length + 1) =
        encipher (xorWith enc.encryptKey) 0 1
          (encipher (xorWith rKey) 0 1 (payload.sum :: payload)) := by
  have hsize : headerSize + payload.length = 4 + (payload.length + 1) := by
    unfold headerSize
    omega
  have h₂ : a + 1 + 1 = a + 2 := by omega
  have h₃ : a + 2 + 1 = a + 3 := by omega
  rw [hsize, load_add, frame] at h
  obtain ⟨hhead, hbody⟩ := List.append_inj h (length_load m a 4)
  simp only [load_succ, load_zero, h₂, h₃, List.cons.injEq, and_true] at hhead
  obtain ⟨hcode, hlo, hhi, hkey⟩ := hhead
  refine ⟨hcode, ?_, hkey, hbody⟩
  rw [headerLen, hlo, hhi, len_eq hlen]

/-- **`Decode` after `Encode`** restores the payload. -/
theorem decode_encode (rKey : UInt8) (hq : Ready payload q) (hlen : payload.length < 2 ^ 16) :
    ∃ m : ℤ → UInt8, enc.decode (enc.encode rKey q) =
        (true, { enc.encode rKey q with buffer := m, front := q.front }) ∧
      load m q.front payload.length = payload := by
  obtain ⟨hfront, hrear, hload⟩ := enc.encode_frame rKey hq hlen
  obtain ⟨-, hn, hkey, hbody⟩ := enc.frame_header hlen hload
  rw [← hfront] at hn hkey hbody
  have hmove : (enc.encode rKey q).front + headerSize = q.front := by
    rw [hfront, sub_add_cancel]
  have hdeframe : enc.deframe ((enc.encode rKey q).buffer ((enc.encode rKey q).front + 3))
      (load (enc.encode rKey q).buffer ((enc.encode rKey q).front + 4) (payload.length + 1)) =
        payload.sum :: payload := by
    rw [hkey, hbody, deframe_body]
  have hdec := enc.decode_of_deframe hn (by rw [hmove, hrear]; exact hq.inBounds.rear) hdeframe
  rwa [hmove] at hdec

/-- **`Decode` is the inverse of `Encode` in place.** On a frame in front of a packet it answers
true exactly if `Encode` writes these bytes for some payload, with the random byte of the header;
then `Front` has moved to that payload. Only the checksum and the payload are written. -/
theorem decode_inverts_encode :
    (∀ (p : Packet) (n : ℕ), p.buffer p.front = enc.headerCode →
      headerLen p.buffer p.front = n → p.front + headerSize ≤ p.rear →
      ((enc.decode p).1 = true ↔ ∃ payload : List UInt8, payload.length = n ∧
        enc.Writes (p.buffer (p.front + 3)) payload (load p.buffer p.front (headerSize + n))) ∧
      (∀ payload : List UInt8, payload.length = n →
        enc.Writes (p.buffer (p.front + 3)) payload (load p.buffer p.front (headerSize + n)) →
        (enc.decode p).2.front = p.front + headerSize ∧
        load (enc.decode p).2.buffer (p.front + headerSize) n = payload) ∧
      ∀ x, x < p.front + 4 ∨ p.front + headerSize + n ≤ x →
        (enc.decode p).2.buffer x = p.buffer x) ∧
    ∀ (rKey : UInt8) (q : Packet) (payload : List UInt8), Ready payload q →
      payload.length < 2 ^ 16 →
      (enc.decode (enc.encode rKey q)).1 = true ∧
      (enc.decode (enc.encode rKey q)).2.front = q.front ∧
      (enc.decode (enc.encode rKey q)).2.data = payload := by
  refine ⟨fun p n hcode hn hrear => ⟨?_, ?_, ?_⟩, ?_⟩
  · have hn16 : n < 2 ^ 16 := hn ▸ headerLen_lt p.buffer p.front
    rw [enc.decode_eq_true_iff hn hrear]
    constructor
    · rintro ⟨payload, h⟩
      have hlen : payload.length = n := by simpa using (congrArg List.length h).symm
      refine ⟨payload, hlen, (enc.writes_iff (by omega)).2 ?_⟩
      exact (enc.load_eq_frame_iff hcode hn hlen).2 h
    · rintro ⟨payload, hlen, h⟩
      refine ⟨payload, (enc.load_eq_frame_iff hcode hn hlen).1 ?_⟩
      exact (enc.writes_iff (by omega)).1 h
  · intro payload hlen h
    have hn16 : n < 2 ^ 16 := hn ▸ headerLen_lt p.buffer p.front
    have hframe := (enc.writes_iff (by omega)).1 h
    have hdeframe := (enc.load_eq_frame_iff hcode hn hlen).1 hframe
    obtain ⟨m, hdec, hload⟩ := enc.decode_of_deframe hn hrear hdeframe
    rw [hdec]
    exact ⟨rfl, hload⟩
  · exact fun x hx => enc.decode_outside hn hrear hx
  · intro rKey q payload hq hlen
    obtain ⟨m, hdec, hload⟩ := enc.decode_encode rKey hq hlen
    have hsize : q.getDataSize.toNat = payload.length := by
      rw [← hq.data, Packet.data, length_load]
    have hrear := (enc.encode_frame rKey hq hlen).2.1
    rw [hdec]
    refine ⟨rfl, rfl, ?_⟩
    rw [Packet.data, Packet.getDataSize, hrear]
    exact (congrArg (load m q.front) hsize).trans hload

/-- The frame of one byte at offset 2 of a buffer of 12 bytes. -/
def framed : Packet := { Packet.new 12 fun _ => 0xcc with
  front := 2
  rear := 8
  buffer := store (fun _ => 0xcc) 2 [0x77, 1, 0, 9, 0x13, 0x46] }

theorem decode_inverts_encode_framed :
    (({} : XorPacketEncoder).decode framed).1 = true ∧
      (({} : XorPacketEncoder).decode framed).2.front = 7 ∧
      load (({} : XorPacketEncoder).decode framed).2.buffer 7 1 = [42] ∧
      ∀ x, x < 6 ∨ 8 ≤ x → (({} : XorPacketEncoder).decode framed).2.buffer x = framed.buffer x := by
  have h := (({} : XorPacketEncoder).decode_inverts_encode).1 framed 1 (by decide) (by decide)
    (by decide)
  have hwrites : ({} : XorPacketEncoder).Writes 9 [42] (load framed.buffer 2 6) :=
    (({} : XorPacketEncoder).writes_iff (by decide)).2 (by decide)
  obtain ⟨haccept, hpayload, houtside⟩ := h
  obtain ⟨hfront, hload⟩ := hpayload [42] rfl hwrites
  exact ⟨haccept.2 ⟨[42], rfl, hwrites⟩, hfront, hload, houtside⟩

end XorPacketEncoder

end NetworkLibrary
