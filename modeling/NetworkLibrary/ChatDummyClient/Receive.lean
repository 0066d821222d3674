import NetworkLibrary.ChatDummyClient.Requests
import NetworkLibrary.Delivery.Receiver

/-!
# What a session receives

`ProcessRecvBuffer` takes the messages off the front of `recvBuf` one after the other, as `next`
does, and handles them (`processed_processLoop`). It looks at a header as soon as the header is
there, while the server waits for the byte behind it; the frames of payloads that are not empty are
taken off by both (`frames`). A message that has arrived and is longer than `tmpPacket` is copied
over its end; this is all that can go wrong (`overruns_of_eq_none`).
-/

namespace NetworkLibrary.ChatDummyClient

open Foundations ChatServer Packet XorPacketEncoder

/-- Takes one message off the front of a stream; a message that is there and that `tmpPacket` has no
room for is none. -/
def next (enc : XorPacketEncoder) : List UInt8 → Next UInt8 (List UInt8)
  | code :: lo :: hi :: rKey :: checksum :: body =>
    if code ≠ enc.headerCode then .reject
    else
      let len := lo.toNat + 256 * hi.toNat
      if enc.maxPayloadLen ≠ 0 ∧ len > enc.maxPayloadLen.toNat then .reject
      else if len > sizeofBuf - headerSize then .reject
      else if body.length < len then .more
      else if len > 1019 then .reject
      else
        match enc.deframe rKey (checksum :: body.take len) with
        | sum :: payload => if sum = payload.sum then .item payload (body.drop len) else .reject
        | [] => .reject
  | _ => .more

/-- The session handles the payloads one after the other, each in a packet that holds it. -/
inductive Handles (ctx : WorkerContext) : ClientSession → List (List UInt8) → ClientSession → Prop
  | nil {s : ClientSession} : Handles ctx s [] s
  | cons {s t : ClientSession} {payload : List UInt8} {ps : List (List UInt8)} {p : Packet}
      {chance : Chance} : p.Holds payload →
      Handles ctx (s.handlePacket ctx (extractWord p).1 (extractWord p).2 chance) ps t →
      Handles ctx s (payload :: ps) t

variable {enc : XorPacketEncoder} {ctx : WorkerContext} {s : ClientSession}
  {code lo hi rKey checksum : UInt8} {body rest : List UInt8} {turns : ℕ}

/-! ## One message -/

/-- The header at the front of the bytes. -/
theorem header_store (bytes : List UInt8) (m : ℤ → UInt8)
    (h : bytes = code :: lo :: hi :: rKey :: checksum :: body) :
    store m 0 bytes 0 = code ∧ headerLen (store m 0 bytes) 0 = lo.toNat + 256 * hi.toNat ∧
      store m 0 bytes 3 = rKey := by
  subst h
  refine ⟨?_, ?_, ?_⟩ <;> simp [store, headerLen]

theorem load_body (m : ℤ → UInt8) {len : ℕ} (hlen : len ≤ body.length) :
    load (store m 0 ((code :: lo :: hi :: rKey :: checksum :: body).take (5 + len))) 4 (len + 1) =
      checksum :: body.take len := by
  have hself := load_store_self m 0 ((code :: lo :: hi :: rKey :: checksum :: body).take (5 + len))
  have htake : (code :: lo :: hi :: rKey :: checksum :: body).take (5 + len) =
      [code, lo, hi, rKey] ++ (checksum :: body.take len) := by
    rw [show 5 + len = len + 1 + 1 + 1 + 1 + 1 by omega]
    rfl
  have hlength : ([code, lo, hi, rKey] ++ (checksum :: body.take len)).length = 4 + (len + 1) := by
    simp [hlen]
    omega
  rw [htake] at hself ⊢
  rw [hlength, load_add] at hself
  exact (List.append_inj hself (by rw [length_load]; rfl)).2

/-- The temporary packet with a whole message in it. -/
def tmpPacket (m : ℤ → UInt8) (bytes : List UInt8) (packetSize : ℕ) : Packet :=
  (((Packet.new kBufferDefault m).fill (bytes.take packetSize) 0).moveWritePos packetSize).2

/-- `Decode` on the temporary packet. -/
theorem decode_tmpPacket (enc : XorPacketEncoder) (m : ℤ → UInt8) (code rKey checksum : UInt8)
    {len : ℕ} (hlen : len ≤ body.length) (hheader : lo.toNat + 256 * hi.toNat = len)
    (hfits : len ≤ 1019) :
    ∃ sum payload p, enc.deframe rKey (checksum :: body.take len) = sum :: payload ∧
      enc.decode (tmpPacket m (code :: lo :: hi :: rKey :: checksum :: body) (5 + len)) =
        (decide (sum = payload.sum), p) ∧
      (sum = payload.sum → p.Holds payload) := by
  set bytes := code :: lo :: hi :: rKey :: checksum :: body with hbytes
  set q := tmpPacket m bytes (5 + len) with hq
  have htake : bytes.take (5 + len) = code :: lo :: hi :: rKey :: checksum :: body.take len := by
    rw [show 5 + len = len + 1 + 1 + 1 + 1 + 1 by omega]
    rfl
  obtain ⟨-, hlenq, hkey⟩ := header_store (bytes.take (5 + len)) m htake
  have hfront : q.front = 0 := rfl
  have hrear : q.rear = 5 + (len : ℤ) := by
    simp only [hq, tmpPacket, Packet.moveWritePos, Packet.fill, Packet.new, kBufferDefault]
    push_cast
    split_ifs <;> omega
  have hbuffer : q.buffer = store m 0 (bytes.take (5 + len)) := rfl
  obtain ⟨m', -, hload, hdecode⟩ := enc.decode_eq (p := q) (n := len)
    (by rw [hbuffer, hfront, hlenq, hheader]) (by rw [hfront, hrear]; omega)
  rw [hbuffer, hfront, zero_add, zero_add, hkey, load_body m hlen] at hload
  rw [hfront, zero_add, zero_add] at hdecode
  have hdeframe := hload.symm
  rw [load_succ, show (4 : ℤ) + 1 = 5 from rfl] at hdeframe
  refine ⟨m' 4, load m' 5 len,
    if m' 4 = (load m' 5 len).sum then { q with buffer := m', front := 5 }
    else { q with buffer := m' }, hdeframe, ?_, fun hsum => ?_⟩
  · rw [hdecode]
    by_cases hsum : m' 4 = (load m' 5 len).sum
    · rw [if_pos hsum, if_pos hsum, decide_eq_true hsum]
    · rw [if_neg hsum, if_neg hsum, decide_eq_false hsum]
      rfl
  · rw [if_pos hsum]
    refine ⟨⟨show (0 : ℤ) ≤ 5 by norm_num, ?_, ?_⟩, ?_⟩
    · dsimp only
      omega
    · show q.rear ≤ 1024
      omega
    · rw [Packet.data, Packet.getDataSize]
      dsimp only
      rw [hrear, show (5 + (len : ℤ) - 5).toNat = len by omega]

theorem exists_header_of_length (h : ¬rest.length < headerSize) :
    ∃ code lo hi rKey checksum body, rest = code :: lo :: hi :: rKey :: checksum :: body := by
  rcases rest with _ | ⟨code, _ | ⟨lo, _ | ⟨hi, _ | ⟨rKey, _ | ⟨checksum, body⟩⟩⟩⟩⟩
  case cons.cons.cons.cons.cons => exact ⟨code, lo, hi, rKey, checksum, body, rfl⟩
  all_goals exact absurd (by simp [headerSize]) h

theorem next_of_short (h : rest.length < headerSize) : next enc rest = .more := by
  rcases rest with _ | ⟨code, _ | ⟨lo, _ | ⟨hi, _ | ⟨rKey, _ | ⟨checksum, body⟩⟩⟩⟩⟩
  case cons.cons.cons.cons.cons =>
    simp only [List.length_cons, headerSize] at h
    omega
  all_goals rfl

/-! ## The loop -/

/-- A message at the front that has arrived, and that `tmpPacket` has no room for. -/
def Overruns (enc : XorPacketEncoder) : List UInt8 → Prop
  | code :: lo :: hi :: _ :: _ :: body => code = enc.headerCode ∧
      1019 < lo.toNat + 256 * hi.toNat ∧ lo.toNat + 256 * hi.toNat ≤ body.length
  | _ => False

/-- The bytes have been parsed: the messages have been handled, and where the parse is rejected the
session is given up, or the message that is there overruns `tmpPacket`. -/
def Processed (ctx : WorkerContext) (s : ClientSession) (rest : List UInt8)
    (r : Option (ClientSession × List UInt8)) : Prop :=
  ∃ t ps o, Parses (next ctx.encoder) rest ps o ∧ Handles ctx s ps t ∧
    (∀ left, o = .waiting left → r = some (t, left)) ∧
      (o = .rejected → ∃ left, left <:+ rest ∧
        (r = some (t.markDisconnected, left) ∨ r = none ∧ Overruns ctx.encoder left))

theorem Processed.stop (h : next ctx.encoder rest = .more) :
    Processed ctx s rest (some (s, rest)) :=
  ⟨s, [], _, .more h, .nil, fun _ h => by rw [Outcome.waiting.inj h], fun h => nomatch h⟩

theorem Processed.reject (h : next ctx.encoder rest = .reject) :
    Processed ctx s rest (some (s.markDisconnected, rest)) :=
  ⟨s, [], _, .reject h, .nil, (fun _ h => nomatch h), fun _ => ⟨rest, List.suffix_rfl, .inl rfl⟩⟩

theorem Processed.overrun (h : next ctx.encoder rest = .reject)
    (hlong : Overruns ctx.encoder rest) : Processed ctx s rest none :=
  ⟨s, [], _, .reject h, .nil, (fun _ h => nomatch h), fun _ =>
    ⟨rest, List.suffix_rfl, .inr ⟨rfl, hlong⟩⟩⟩

theorem Processed.item (chance : Chance) {left payload : List UInt8} {p : Packet}
    {r : Option (ClientSession × List UInt8)} (hsuffix : left <:+ rest)
    (hnext : next ctx.encoder rest = .item payload left) (hp : p.Holds payload)
    (h : Processed ctx (s.handlePacket ctx (extractWord p).1 (extractWord p).2 chance) left r) :
    Processed ctx s rest r := by
  obtain ⟨t, ps, o, hparse, hhandles, hwaiting, hrejected⟩ := h
  refine ⟨t, payload :: ps, o, .item hnext hparse, .cons hp hhandles, hwaiting, fun ho => ?_⟩
  obtain ⟨stop, hstop, hr⟩ := hrejected ho
  exact ⟨stop, hstop.trans hsuffix, hr⟩

/-- **`ProcessRecvBuffer` parses the stream.** -/
theorem processed_processLoop (ctx : WorkerContext) (h : rest.length ≤ turns)
    (s : ClientSession) (chances : ℕ → Chance) :
    Processed ctx s rest (ClientSession.processLoop ctx turns s rest chances) := by
  induction turns generalizing s rest chances with
  | zero =>
    obtain rfl := List.eq_nil_of_length_eq_zero (Nat.le_zero.1 h)
    exact .stop rfl
  | succ turns ih =>
    by_cases hshort : rest.length < headerSize
    · rw [ClientSession.processLoop, if_pos hshort]
      exact .stop (next_of_short hshort)
    obtain ⟨code, lo, hi, rKey, checksum, body, rfl⟩ := exists_header_of_length hshort
    obtain ⟨hcode, hlen, -⟩ := header_store (code :: lo :: hi :: rKey :: checksum :: body)
      (fun _ => 0) rfl
    have hnext := next.eq_1 ctx.encoder code lo hi rKey checksum body
    rw [ClientSession.processLoop, if_neg hshort]
    simp only [verifyHeaderMagic, peekPayloadLength, hcode, hlen]
    by_cases hmagic : code = ctx.encoder.headerCode
    swap
    · rw [if_pos hmagic] at hnext
      rw [if_pos (by simp [hmagic])]
      exact .reject hnext
    rw [if_neg (not_not.2 hmagic)] at hnext
    rw [if_neg (by simp [hmagic])]
    by_cases hlimit : ctx.encoder.maxPayloadLen ≠ 0 ∧
        lo.toNat + 256 * hi.toNat > ctx.encoder.maxPayloadLen.toNat
    · rw [if_pos hlimit] at hnext ⊢
      exact .reject hnext
    rw [if_neg hlimit] at hnext ⊢
    obtain ⟨len, hheader⟩ : ∃ len, lo.toNat + 256 * hi.toNat = len := ⟨_, rfl⟩
    simp only [hheader] at hnext ⊢
    by_cases hbig : len > sizeofBuf - headerSize
    · rw [if_pos hbig] at hnext ⊢
      exact .reject hnext
    rw [if_neg hbig] at hnext ⊢
    by_cases hpart : body.length < len
    · rw [if_pos hpart] at hnext
      rw [if_pos (by simp only [List.length_cons, headerSize]; omega)]
      exact .stop hnext
    rw [if_neg hpart] at hnext
    rw [if_neg (by simp only [List.length_cons, headerSize]; omega)]
    have hroom : (Packet.new kBufferDefault (chances 0).memory).getWriteBufferPtr +
        ((headerSize + len : ℕ) : ℤ) > (Packet.new kBufferDefault (chances 0).memory).bufferSize ↔
          len > 1019 := by
      simp only [Packet.new, getWriteBufferPtr, kBufferDefault, headerSize]
      omega
    by_cases hlong : len > 1019
    · rw [if_pos hlong] at hnext
      rw [if_pos (hroom.2 hlong)]
      refine .overrun hnext ⟨hmagic, ?_, ?_⟩
      · rw [hheader]
        exact hlong
      · rw [hheader]
        exact Nat.not_lt.1 hpart
    rw [if_neg hlong] at hnext
    rw [if_neg fun h => hlong (hroom.1 h)]
    obtain ⟨sum, payload, p, hdeframe, hdecode, hp⟩ :=
      decode_tmpPacket ctx.encoder (chances 0).memory code rKey checksum (Nat.not_lt.1 hpart)
        hheader (Nat.not_lt.1 hlong)
    rw [hdeframe] at hnext
    dsimp only at hnext
    have hdrop : (code :: lo :: hi :: rKey :: checksum :: body).drop (headerSize + len) =
        body.drop len := by
      rw [show headerSize + len = len + 1 + 1 + 1 + 1 + 1 by rw [headerSize]; omega]
      rfl
    generalize hd : ctx.encoder.decode _ = d
    obtain rfl : (decide (sum = payload.sum), p) = d := hdecode.symm.trans hd
    by_cases hsum : sum = payload.sum
    · rw [decide_eq_true hsum]
      rw [if_pos hsum] at hnext
      refine .item (chances 0) ?_ hnext (hp hsum) ?_
      · rw [← hdrop]
        exact List.drop_suffix ..
      dsimp only
      rw [hdrop]
      refine ih ?_ _ _
      rw [List.length_drop]
      simp only [List.length_cons] at h
      omega
    · rw [decide_eq_false hsum]
      rw [if_neg hsum] at hnext
      exact .reject hnext

/-- With a body behind the header, the server takes the same message off the stream. -/
theorem next_eq (enc : XorPacketEncoder) (code rKey checksum : UInt8) (hbody : body ≠ [])
    (hlen : lo.toNat + 256 * hi.toNat ≤ 1004) :
    next enc (code :: lo :: hi :: rKey :: checksum :: body) =
      enc.next (code :: lo :: hi :: rKey :: checksum :: body) := by
  have hpos := List.length_pos_iff.2 hbody
  simp only [next, XorPacketEncoder.next, List.length_cons, List.take_succ_cons,
    List.drop_succ_cons]
  rw [if_neg (show ¬body.length + 1 ≤ 1 by omega),
    if_neg (show ¬lo.toNat + 256 * hi.toNat > sizeofBuf - headerSize by
      rw [sizeofBuf, headerSize]
      omega)]
  rw [if_neg (show ¬lo.toNat + 256 * hi.toNat > 1019 by omega)]
  exact if_congr Iff.rfl rfl (if_congr Iff.rfl rfl (if_congr Nat.add_lt_add_iff_right.symm rfl rfl))

/-- A frame of the encoder, byte by byte. -/
theorem frame_eq_cons (enc : XorPacketEncoder) (rKey : UInt8) {payload : List UInt8}
    (hne : payload ≠ []) :
    ∃ checksum body, body.length = payload.length ∧ body ≠ [] ∧ enc.frame rKey payload =
      enc.headerCode :: UInt8.ofNat payload.length :: UInt8.ofNat (payload.length / 256) :: rKey ::
        checksum :: body := by
  have hlen := enc.length_frame rKey payload
  rw [XorPacketEncoder.frame] at hlen ⊢
  generalize encipher (xorWith enc.encryptKey) 0 1 (encipher (xorWith rKey) 0 1
    (payload.sum :: payload)) = enciphered at hlen ⊢
  cases enciphered with
  | nil => simp [headerSize] at hlen; omega
  | cons checksum body =>
    have hbody : body.length = payload.length := by
      simp [headerSize] at hlen
      omega
    refine ⟨checksum, body, hbody, ?_, rfl⟩
    rw [← List.length_pos_iff] at hne ⊢
    omega

/-- **The frames of payloads that fit are taken off the stream.** -/
theorem frames {β : Type*} {frame view : β → List UInt8} {ok : β → Prop}
    (hlimit : Delivery.Unlimited enc) (key : β → UInt8)
    (hframe : ∀ b, ok b → frame b = enc.frame (key b) (view b))
    (hok : ∀ b, ok b → Delivery.Fitting (view b)) : Frames (next enc) frame view ok := by
  have hf := Delivery.frames_of_fitting hlimit key hframe hok
  have hcons : ∀ b, ok b → ∃ lo hi checksum body, body ≠ [] ∧
      lo.toNat + 256 * hi.toNat ≤ 1004 ∧ body.length = lo.toNat + 256 * hi.toNat ∧
      frame b = enc.headerCode :: lo :: hi :: key b :: checksum :: body := by
    intro b hb
    obtain ⟨hpos, hlen⟩ := hok b hb
    obtain ⟨checksum, body, hbody, hbne, heq⟩ :=
      frame_eq_cons enc (key b) (List.ne_nil_of_length_pos hpos)
    have hheader := len_eq (n := (view b).length) (by omega)
    exact ⟨_, _, checksum, body, hbne, by rw [hheader]; exact hlen, by rw [hheader]; exact hbody,
      (hframe b hb).trans heq⟩
  refine ⟨rfl, fun b hb rest => ?_, fun b hb s t hs ht => ?_⟩
  · have hwhole := hf.whole b hb rest
    obtain ⟨lo, hi, checksum, body, hne, hlen, -, heq⟩ := hcons b hb
    rw [heq] at hwhole ⊢
    rw [← hwhole]
    exact next_eq enc _ _ _ (by simp [hne]) hlen
  · have hpart := hf.part b hb s t hs ht
    obtain ⟨lo, hi, checksum, body, hne, hlen, hbody, heq⟩ := hcons b hb
    by_cases hshort : s.length < headerSize
    · exact next_of_short hshort
    obtain ⟨code', lo', hi', rKey', checksum', body', rfl⟩ := exists_header_of_length hshort
    rw [heq] at hs
    simp only [List.cons_append, List.cons.injEq] at hs
    obtain ⟨rfl, rfl, rfl, rfl, rfl, rfl⟩ := hs
    by_cases hnil : body' = []
    · -- the header is there, and nothing else
      subst hnil
      have hpos := List.length_pos_iff.2 ht
      have hmax :
          ¬(enc.maxPayloadLen ≠ 0 ∧ lo'.toNat + 256 * hi'.toNat > enc.maxPayloadLen.toNat) := by
        rintro ⟨hne0, hgt⟩
        rcases hlimit with h0 | hle
        · exact hne0 h0
        · have hle := UInt16.le_iff_toNat_le.1 hle
          exact absurd (hgt.trans_le hlen) (not_lt.2 hle)
      rw [List.nil_append] at hbody
      rw [next, if_neg (not_not.2 rfl), if_neg hmax]
      rw [if_neg (by rw [sizeofBuf, headerSize]; omega), if_pos (by rw [List.length_nil]; omega)]
    · rw [← hpart]
      exact next_eq enc _ _ _ hnil hlen

end NetworkLibrary.ChatDummyClient
