import NetworkLibrary.Foundations.Feedback
import NetworkLibrary.Foundations.Framing
import NetworkLibrary.Packet.Buffer
import Mathlib.Algebra.BigOperators.Group.List.Basic
import Mathlib.Data.UInt

/-!
# `XorPacketEncoder`

The default encoder: a header of 5 bytes (code, length, random key, checksum) before the payload,
and the bytes from the checksum on enciphered twice, under the random key and under the key of the
encoder.

`encode` and `decode` are the loops of the source, which work in the packet's buffer. What they do
to its data is `frame` and `deframe`: both passes are ciphers with feedback, so that `deframe` takes
a frame apart whatever follows it (`next_frame`). `next` reads one message off a stream, as the
receiving side does with `VerifyHeaderMagic`, `PeekPayloadLength` and `Decode`.
-/

namespace NetworkLibrary

open Foundations

structure XorPacketEncoder where
  headerCode : UInt8 := 0x77
  encryptKey : UInt8 := 0x32
  /-- 0 for no limit. -/
  maxPayloadLen : UInt16 := 4096

namespace XorPacketEncoder

/-- `sizeof(NetHeader)`: `Code`, `Len` (2 bytes), `RKey`, `Checksum`. -/
def headerSize : ℕ := 5

/-- `header->Len`, in little-endian order. -/
def headerLen (m : ℤ → UInt8) (header : ℤ) : ℕ :=
  (m (header + 1)).toNat + 256 * (m (header + 2)).toNat

variable (enc : XorPacketEncoder)

def verifyHeaderMagic (m : ℤ → UInt8) (header : ℤ) : Bool := m header = enc.headerCode

def peekPayloadLength (m : ℤ → UInt8) (header : ℤ) : Option ℕ :=
  if enc.maxPayloadLen ≠ 0 ∧ headerLen m header > enc.maxPayloadLen.toNat then none
  else some (headerLen m header)

/-! ## `Encode` -/

/-- `for (i = 0; i < payloadSize; i++) checksum += payload[i]`. -/
def sumLoop (m : ℤ → UInt8) : ℤ → ℕ → UInt8 → UInt8
  | _, 0, checksum => checksum
  | payload, n + 1, checksum => sumLoop m (payload + 1) n (checksum + m payload)

/-- The loop over the bytes of the payload, from index `i` on, with `n` iterations left; `p` and
`P` are the variables of the source. -/
def encodeLoop (encryptKey rk : UInt8) : ℕ → ℕ → ℤ → UInt8 → (ℤ → UInt8) → ℤ → UInt8
  | 0, _, _, _, m => m
  | n + 1, i, p, P, m =>
    let P := m p ^^^ (P + rk + UInt8.ofNat i)
    encodeLoop encryptKey rk n (i + 1) (p + 1) P
      (Function.update m p (P ^^^ (m (p - 1) + encryptKey + UInt8.ofNat i)))

/-- `Encode`; `rKey` is the random byte. -/
def encode (rKey : UInt8) (packet : Packet) : Packet :=
  if packet.encodeFlag then packet
  else
    let payload := packet.getReadBufferPtr
    let payloadSize := (packet.getDataSize % 2 ^ 16).toNat
    let packet := (packet.moveReadPos (-headerSize)).2
    let header := packet.getReadBufferPtr
    let m := store packet.buffer header
      [enc.headerCode, UInt8.ofNat payloadSize, UInt8.ofNat (payloadSize / 256), rKey]
    let m := Function.update m (header + 4) (sumLoop m payload payloadSize 0)
    let p := header + 4
    let P := m p ^^^ (rKey + 1)
    let m := Function.update m p (P ^^^ (enc.encryptKey + 1))
    { packet with buffer := encodeLoop enc.encryptKey rKey payloadSize 2 (p + 1) P m
                  encodeFlag := true }

/-! ## `Decode` -/

/-- One of the two loops, from the byte at `checksum + n` back to `checksum`: each byte is undone
with the one before it; the second loop sums the payload up. -/
def decodeLoop (key : UInt8) (checksum : ℤ) : ℕ → (ℤ → UInt8) → UInt8 → (ℤ → UInt8) × UInt8
  | 0, m, sum => (Function.update m checksum (m checksum ^^^ (key + 1)), sum)
  | n + 1, m, sum =>
    let tmp := checksum + (n + 1)
    let b := m tmp ^^^ (m (tmp - 1) + key + UInt8.ofNat (n + 2))
    decodeLoop key checksum n (Function.update m tmp b) (sum + b)

/-- `Decode`: the answer, and the packet after it. -/
def decode (packet : Packet) : Bool × Packet :=
  let header := packet.getReadBufferPtr
  let rk := packet.buffer (header + 3)
  let len := headerLen packet.buffer header
  let m := (decodeLoop enc.encryptKey (header + 4) len packet.buffer 0).1
  let r := decodeLoop rk (header + 4) len m 0
  let packet := { packet with buffer := r.1 }
  if packet.buffer (header + 4) ≠ r.2 then (false, packet)
  else (true, (packet.moveReadPos headerSize).2)

/-! ## The loops as ciphers -/

/-- A byte under a key, the byte before it and its position. -/
def xorWith (key prev : UInt8) (i : ℕ) (b : UInt8) : UInt8 := b ^^^ (prev + key + UInt8.ofNat i)

theorem xorWith_xorWith (key prev : UInt8) (i : ℕ) (b : UInt8) :
    xorWith key prev i (xorWith key prev i b) = b := by
  rw [xorWith, xorWith, UInt8.xor_assoc, UInt8.xor_self, UInt8.xor_zero]

variable {m : ℤ → UInt8} {a x : ℤ} {n i : ℕ} {key rk P sum : UInt8}

theorem sumLoop_eq (m : ℤ → UInt8) (a : ℤ) (n : ℕ) (sum : UInt8) :
    sumLoop m a n sum = sum + (load m a n).sum := by
  induction n generalizing a sum with
  | zero => simp [sumLoop]
  | succ n ih => rw [sumLoop, ih, load_succ, List.sum_cons, UInt8.add_assoc]

theorem encodeLoop_outside (h : x < a ∨ a + n ≤ x) : encodeLoop key rk n i a P m x = m x := by
  induction n generalizing i a P m with
  | zero => rfl
  | succ n ih =>
    rw [encodeLoop, ih (by omega), Function.update_of_ne (by omega)]

theorem load_encodeLoop (m : ℤ → UInt8) (a : ℤ) (n i : ℕ) (P : UInt8) :
    load (encodeLoop key rk n i a P m) a n =
      encipher (xorWith key) (m (a - 1)) i (encipher (xorWith rk) P i (load m a n)) := by
  induction n generalizing i a P m with
  | zero => rfl
  | succ n ih =>
    rw [encodeLoop, load_succ, encodeLoop_outside (.inl (by omega)), ih, load_update_of_lt (by omega),
      Function.update_self, add_sub_cancel_right, Function.update_self, load_succ]
    rfl

theorem decodeLoop_outside (h : x < a ∨ a + n < x) : (decodeLoop key a n m sum).1 x = m x := by
  induction n generalizing m sum with
  | zero => exact Function.update_of_ne (by omega) _ _
  | succ n ih =>
    rw [decodeLoop, ih (by omega), Function.update_of_ne (by omega)]

theorem load_pair (m : ℤ → UInt8) (a : ℤ) (n : ℕ) :
    load m a (n + 2) = load m a n ++ [m (a + n), m (a + n + 1)] := by
  rw [load_add]
  rfl

theorem load_concat (m : ℤ → UInt8) (a : ℤ) (n : ℕ) :
    load m a (n + 1) = load m a n ++ [m (a + n)] := by
  rw [load_add]
  rfl

theorem load_decodeLoop (m : ℤ → UInt8) (a : ℤ) (n : ℕ) (sum : UInt8) :
    load (decodeLoop key a n m sum).1 a (n + 1) =
      decipher (xorWith key) 0 1 (load m a (n + 1)) := by
  induction n generalizing m sum with
  | zero => simp [decodeLoop, load_succ, decipher, xorWith]
  | succ n ih =>
    have hlast : a + ((n : ℤ) + 1) - 1 = a + n := by omega
    rw [load_concat _ _ (n + 1), decodeLoop, ih, decodeLoop_outside (.inr (by push_cast; omega)),
      load_update_of_ge (by push_cast; omega), load_pair, load_concat, decipher_append_pair]
    simp [xorWith, hlast, add_assoc, add_comm 1 (n + 1)]

theorem decodeLoop_sum (m : ℤ → UInt8) (a : ℤ) (n : ℕ) (sum : UInt8) :
    (decodeLoop key a n m sum).2 = sum + (load (decodeLoop key a n m sum).1 (a + 1) n).sum := by
  induction n generalizing m sum with
  | zero => simp [decodeLoop]
  | succ n ih =>
    have hlast : a + 1 + (n : ℤ) = a + (n + 1) := by omega
    rw [decodeLoop, ih, load_concat, hlast, decodeLoop_outside (.inr (by omega)),
      Function.update_self, List.sum_append, List.sum_singleton, UInt8.add_assoc]
    congr 1
    exact UInt8.add_comm _ _

/-! ## Frames -/

/-- What `Encode` sends for a payload. -/
def frame (rKey : UInt8) (payload : List UInt8) : List UInt8 :=
  [enc.headerCode, UInt8.ofNat payload.length, UInt8.ofNat (payload.length / 256), rKey] ++
    encipher (xorWith enc.encryptKey) 0 1
      (encipher (xorWith rKey) 0 1 (payload.sum :: payload))

/-- The checksum and the payload, deciphered. -/
def deframe (rKey : UInt8) (body : List UInt8) : List UInt8 :=
  decipher (xorWith rKey) 0 1 (decipher (xorWith enc.encryptKey) 0 1 body)

@[simp] theorem length_frame (rKey : UInt8) (payload : List UInt8) :
    (enc.frame rKey payload).length = headerSize + payload.length := by
  simp [frame, headerSize]
  omega

@[simp] theorem length_deframe (rKey : UInt8) (body : List UInt8) :
    (enc.deframe rKey body).length = body.length := by
  simp [deframe]

/-- The packet after `Encode`, whose payload has `n` bytes; `m` is the buffer before the loop. -/
theorem encode_eq (rKey : UInt8) {p : Packet} (hflag : p.encodeFlag = false)
    (hrear : p.front ≤ p.rear) (hn : p.getDataSize.toNat = n) (hsize : n < 2 ^ 16) :
    ∃ m : ℤ → UInt8,
      load m (p.front - 5) 4 =
        [enc.headerCode, UInt8.ofNat n, UInt8.ofNat (n / 256), rKey] ∧
      m (p.front - 1) =
        (load p.buffer p.front n).sum ^^^ (rKey + 1) ^^^ (enc.encryptKey + 1) ∧
      load m p.front n = load p.buffer p.front n ∧
      enc.encode rKey p = { p with
        front := p.front - 5
        buffer := encodeLoop enc.encryptKey rKey n 2 p.front
          ((load p.buffer p.front n).sum ^^^ (rKey + 1)) m
        encodeFlag := true } := by
  set head := [enc.headerCode, UInt8.ofNat n, UInt8.ofNat (n / 256), rKey] with hhead
  set m₀ := store p.buffer (p.front - 5) head with hm₀
  have hm : load m₀ p.front n = load p.buffer p.front n :=
    load_store_of_disjoint (.inl (by simp [hhead]; omega))
  have hsum : sumLoop m₀ p.front n 0 = (load p.buffer p.front n).sum := by
    rw [sumLoop_eq, hm, UInt8.zero_add]
  have hchecksum : p.front - 5 + 4 = p.front - 1 := by omega
  have hmove := Packet.moveReadPos_of_le (p := p) (-headerSize) (by
    simp only [headerSize]
    omega)
  refine ⟨Function.update m₀ (p.front - 1)
    ((load p.buffer p.front n).sum ^^^ (rKey + 1) ^^^ (enc.encryptKey + 1)), ?_,
    Function.update_self .., ?_, ?_⟩
  · rw [load_update_of_ge (by push_cast; omega)]
    exact load_store_self p.buffer (p.front - 5) head
  · rw [load_update_of_lt (by omega), hm]
  · have hword : (p.getDataSize % 2 ^ 16).toNat = n := by
      rw [Packet.getDataSize] at hn ⊢
      omega
    simp only [encode, hflag, hmove, hword, Packet.getReadBufferPtr]
    simp [headerSize, ← sub_eq_add_neg, ← hhead, ← hm₀, hsum, hchecksum]

/-- **`Encode` frames the data of the packet.** -/
theorem data_encode (rKey : UInt8) {p : Packet} (hflag : p.encodeFlag = false)
    (hrear : p.front ≤ p.rear) (hsize : p.data.length < 2 ^ 16) :
    (enc.encode rKey p).data = enc.frame rKey p.data := by
  rw [Packet.data, length_load] at hsize
  obtain ⟨m, hhead, hchecksum, hbody, he⟩ := enc.encode_eq rKey hflag hrear rfl hsize
  set n := p.getDataSize.toNat with hn
  have hlen : (p.rear - (p.front - 5)).toNat = 4 + (1 + n) := by
    unfold Packet.getDataSize at hn
    omega
  set P := (load p.buffer p.front n).sum ^^^ (rKey + 1)
  set m' := encodeLoop enc.encryptKey rKey n 2 p.front P m with hm'
  have h₁ : load m' (p.front - 5) 4 = load m (p.front - 5) 4 :=
    load_congr fun x _ hx => encodeLoop_outside (.inl (by push_cast at hx; omega))
  have h₂ : m' (p.front - 1) = m (p.front - 1) := encodeLoop_outside (.inl (by omega))
  have h₃ : p.front - 5 + (4 : ℕ) = p.front - 1 := by push_cast; omega
  have h₄ : p.front - 1 + (1 : ℕ) = p.front := by push_cast; omega
  rw [he, Packet.data, Packet.getDataSize]
  simp only [hlen]
  rw [load_add, load_add, h₁, h₃, h₄, hhead, hm', load_encodeLoop, hbody, hchecksum, ← hm',
    load_succ, load_zero, h₂, hchecksum, frame, Packet.data, ← hn, length_load]
  simp [encipher, xorWith, P]

/-- **`Decode` deciphers the frame in place**, and moves `Front` to the payload if the checksum
is right. -/
theorem decode_eq {p : Packet} (hn : headerLen p.buffer p.front = n)
    (hrear : p.front + 5 ≤ p.rear) :
    ∃ m : ℤ → UInt8, (∀ x, x < p.front + 4 ∨ p.front + 4 + n < x → m x = p.buffer x) ∧
      load m (p.front + 4) (n + 1) =
        enc.deframe (p.buffer (p.front + 3)) (load p.buffer (p.front + 4) (n + 1)) ∧
      enc.decode p = if m (p.front + 4) = (load m (p.front + 5) n).sum then
        (true, { p with buffer := m, front := p.front + 5 }) else (false, { p with buffer := m }) := by
  set r := decodeLoop (p.buffer (p.front + 3)) (p.front + 4) n
    (decodeLoop enc.encryptKey (p.front + 4) n p.buffer 0).1 0 with hr
  have hpayload : p.front + 4 + 1 = p.front + 5 := by omega
  have hsum : r.2 = (load r.1 (p.front + 5) n).sum := by
    rw [hr, decodeLoop_sum, UInt8.zero_add, hpayload]
  refine ⟨r.1, fun x hx => ?_, ?_, ?_⟩
  · rw [hr, decodeLoop_outside hx, decodeLoop_outside hx]
  · rw [hr, load_decodeLoop, load_decodeLoop, deframe]
  · have hmove := Packet.moveReadPos_of_le (p := { p with buffer := r.1 }) 5 (by
      dsimp only
      omega)
    simp only [decode, Packet.getReadBufferPtr, hn, ← hr, headerSize, Nat.cast_ofNat, hmove, ← hsum]
    by_cases hc : r.1 (p.front + 4) = r.2
    · rw [if_pos hc, if_neg (not_not.2 hc)]
    · rw [if_neg hc, if_pos hc]

/-! ## Messages of a stream -/

/-- Takes one message off the front of a stream, as `CheckPacketMessageComplete` and
`GetPacketMessage` do: a message is looked at from its sixth byte on. -/
def next : List UInt8 → Next UInt8 (List UInt8)
  | code :: lo :: hi :: rKey :: body =>
    if body.length ≤ 1 then .more
    else if code ≠ enc.headerCode then .reject
    else
      let len := lo.toNat + 256 * hi.toNat
      if enc.maxPayloadLen ≠ 0 ∧ len > enc.maxPayloadLen.toNat then .reject
      else if body.length < len + 1 then .more
      else
        match enc.deframe rKey (body.take (len + 1)) with
        | checksum :: payload =>
          if checksum = payload.sum then .item payload (body.drop (len + 1)) else .reject
        | [] => .reject
  | _ => .more

/-- The answer to a longer stream. -/
theorem next_append (s t : List UInt8) (h : enc.next s ≠ .more) :
    enc.next (s ++ t) = match enc.next s with
      | .item payload rest => .item payload (rest ++ t)
      | r => r := by
  match s, h with
  | code :: lo :: hi :: rKey :: body, h =>
    simp only [List.cons_append, next, List.length_append] at h ⊢
    by_cases h₁ : body.length ≤ 1
    · simp [h₁] at h
    rw [if_neg h₁, if_neg (by omega)]
    by_cases h₂ : code ≠ enc.headerCode
    · rw [if_pos h₂, if_pos h₂]
    rw [if_neg h₁, if_neg h₂] at h
    rw [if_neg h₂, if_neg h₂]
    by_cases h₃ : enc.maxPayloadLen ≠ 0 ∧ lo.toNat + 256 * hi.toNat > enc.maxPayloadLen.toNat
    · rw [if_pos h₃, if_pos h₃]
    rw [if_neg h₃] at h
    rw [if_neg h₃, if_neg h₃]
    by_cases h₄ : body.length < lo.toNat + 256 * hi.toNat + 1
    · simp [h₄] at h
    rw [if_neg h₄, if_neg (by omega), List.take_append_of_le_length (by omega),
      List.drop_append_of_le_length (by omega)]
    split <;> [skip; rfl]
    split <;> rfl

theorem stable_next : Stable enc.next where
  reject s t h := by rw [next_append _ _ _ (by simp [h]), h]
  item s t b rest h := by rw [next_append _ _ _ (by simp [h]), h]

theorem deframe_body (rKey : UInt8) (payload : List UInt8) :
    enc.deframe rKey (encipher (xorWith enc.encryptKey) 0 1
      (encipher (xorWith rKey) 0 1 (payload.sum :: payload))) = payload.sum :: payload := by
  rw [deframe, decipher_encipher (xorWith_xorWith _), decipher_encipher (xorWith_xorWith _)]

theorem len_eq {n : ℕ} (h : n < 2 ^ 16) :
    (UInt8.ofNat n).toNat + 256 * (UInt8.ofNat (n / 256)).toNat = n := by
  simp only [UInt8.toNat_ofNat']
  omega

/-- The limit of the encoder lets a length pass. -/
def Accepts (n : ℕ) : Prop := enc.maxPayloadLen = 0 ∨ n ≤ enc.maxPayloadLen.toNat

/-- **A frame at the front of a stream is taken off as its payload.** -/
theorem next_frame (rKey : UInt8) {payload : List UInt8} (hne : payload ≠ [])
    (hlen : payload.length < 2 ^ 16) (hacc : enc.Accepts payload.length) (rest : List UInt8) :
    enc.next (enc.frame rKey payload ++ rest) = .item payload rest := by
  have hpos := List.length_pos_iff.2 hne
  have hmax : ¬(enc.maxPayloadLen ≠ 0 ∧ payload.length > enc.maxPayloadLen.toNat) := fun h => by
    rcases hacc with h0 | hle
    · exact h.1 h0
    · omega
  set body := encipher (xorWith enc.encryptKey) 0 1
    (encipher (xorWith rKey) 0 1 (payload.sum :: payload)) with hbody
  have hblen : body.length = payload.length + 1 := by simp [hbody]
  have hframe : enc.frame rKey payload ++ rest =
      enc.headerCode :: UInt8.ofNat payload.length :: UInt8.ofNat (payload.length / 256) ::
        rKey :: (body ++ rest) := rfl
  rw [hframe]
  simp only [next, len_eq hlen]
  have hlong : payload.length + 1 ≤ (body ++ rest).length := by
    rw [List.length_append, hblen]
    omega
  rw [if_neg (by simp [hblen]; omega), if_neg (by simp), if_neg hmax, if_neg (Nat.not_lt.2 hlong),
    List.take_left' hblen, List.drop_left' hblen, hbody, deframe_body]
  simp

/-- **A frame that is still incomplete is waited for.** -/
theorem next_frame_take {rKey : UInt8} {payload s t : List UInt8} (hne : payload ≠ [])
    (hlen : payload.length < 2 ^ 16) (hacc : enc.Accepts payload.length)
    (hs : s ++ t = enc.frame rKey payload) (ht : t ≠ []) : enc.next s = .more := by
  have hframe := enc.next_frame rKey hne hlen hacc []
  rw [List.append_nil, ← hs] at hframe
  cases h : enc.next s with
  | more => rfl
  | reject => simp [next_append, h] at hframe
  | item b rest => simp [next_append, h, ht] at hframe

end XorPacketEncoder

end NetworkLibrary
