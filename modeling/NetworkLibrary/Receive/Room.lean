import NetworkLibrary.Receive.Complete
import NetworkLibrary.Receive.Stream

/-!
# Room for the rest of a frame

The data that `RecvQ` holds when a receive is posted is what has arrived of an unfinished frame
(`length_data_of_run`). The encoder accepts frames of up to 5 + 4096 bytes, but `RecvQ` has 4096:
of a frame longer than that `RecvQ` may hold as many bytes as it can, and then nothing more is
posted (`exists_posted_empty`). For every other frame there is room (`posted_pos_iff`).
-/

namespace NetworkLibrary.Receive

open Foundations XorPacketEncoder

variable {enc : XorPacketEncoder} {pool : Pool} {q : Packet} {s t : RecvSide}
  {f bs rest : List UInt8} {fs ps cs : List (List UInt8)}

/-! ## Frames in a stream -/

/-- A frame is taken off the stream or rejected as soon as it has arrived, unless it has no payload
and nothing follows. -/
theorem next_isFrame (h : IsFrame enc f) (rest : List UInt8) :
    rest = [] ∧ f.length = 5 ∧ enc.next (f ++ rest) = .more ∨
      enc.next (f ++ rest) = .reject ∨ ∃ payload, enc.next (f ++ rest) = .item payload rest := by
  rcases f with _ | ⟨code, _ | ⟨lo, _ | ⟨hi, _ | ⟨rKey, _ | ⟨checksum, payload⟩⟩⟩⟩⟩
  case cons.cons.cons.cons.cons =>
    obtain ⟨hcode, hacc, hlen⟩ := h
    have hbody : (checksum :: payload).length = lo.toNat + 256 * hi.toNat + 1 := by
      rw [List.length_cons, hlen]
    simp only [List.cons_append, next]
    rw [← List.cons_append, List.take_left' hbody, List.drop_left' hbody, List.length_append, hbody]
    by_cases hshort : lo.toNat + 256 * hi.toNat + 1 + rest.length ≤ 1
    · refine .inl ⟨List.eq_nil_of_length_eq_zero (by omega), ?_, if_pos hshort⟩
      simp only [List.length_cons]
      omega
    · rw [if_neg hshort, if_neg (not_not.2 hcode), if_neg (accepts_iff.2 hacc), if_neg (by omega)]
      split
      · split
        · exact .inr (.inr ⟨_, rfl⟩)
        · exact .inr (.inl rfl)
      · exact .inr (.inl rfl)
  all_goals exact h.elim

/-- A part of a frame is waited for. -/
theorem next_part (ht : rest ≠ []) (h : IsFrame enc (bs ++ rest)) : enc.next bs = .more := by
  rcases bs with _ | ⟨code, _ | ⟨lo, _ | ⟨hi, _ | ⟨rKey, body⟩⟩⟩⟩
  case cons.cons.cons.cons =>
    have hpos := List.length_pos_iff.2 ht
    rcases body with _ | ⟨checksum, payload⟩
    · rfl
    obtain ⟨hcode, hacc, hlen⟩ := h
    have hlen : payload.length + rest.length = lo.toNat + 256 * hi.toNat :=
      (List.length_append ..).symm.trans hlen
    rw [next]
    split
    · rfl
    rw [if_neg (not_not.2 hcode)]
    dsimp only
    rw [if_neg (accepts_iff.2 hacc), if_pos]
    rw [List.length_cons]
    omega
  all_goals rfl

/-- What a parse of frames leaves over has arrived of an unfinished frame, or is a frame without
payload. -/
theorem length_waiting (hfs : ∀ f ∈ fs, IsFrame enc f) (hbs : bs <+: fs.flatten)
    (h : Parses enc.next bs ps (.waiting rest)) :
    rest.length = unfinished fs bs.length ∨ rest.length = 5 ∧ unfinished fs bs.length = 0 := by
  induction fs generalizing bs ps with
  | nil =>
    obtain rfl := List.prefix_nil.1 hbs
    cases h with
    | more => exact .inl rfl
    | item h => cases h
  | cons f fs ih =>
    have hf := hfs f (by simp)
    have hfs' : ∀ g ∈ fs, IsFrame enc g := fun g hg => hfs g (by simp [hg])
    rw [List.flatten_cons] at hbs
    rw [unfinished]
    rcases Nat.lt_or_ge bs.length f.length with hlt | hge
    · -- a part of the first frame
      obtain ⟨u, hu⟩ := List.prefix_of_prefix_length_le hbs (List.prefix_append ..) hlt.le
      have hne : u ≠ [] := by
        rintro rfl
        rw [List.append_nil] at hu
        exact absurd (congrArg List.length hu) hlt.ne
      have hmore := next_part hne (hu ▸ hf)
      rw [if_pos hlt]
      cases h with
      | more => exact .inl rfl
      | item h => simp [hmore] at h
    · obtain ⟨u, rfl⟩ := List.prefix_of_prefix_length_le (List.prefix_append ..) hbs hge
      rw [if_neg (by omega), List.length_append, Nat.add_sub_cancel_left]
      rcases next_isFrame hf u with ⟨rfl, hlen, hmore⟩ | hrej | ⟨payload, hitem⟩
      · cases h with
        | more =>
          rw [List.append_nil, List.length_nil, unfinished_zero]
          exact .inr ⟨hlen, rfl⟩
        | item h => cases hmore.symm.trans h
      · cases h with
        | more h => simp [hrej] at h
        | item h => simp [hrej] at h
      · cases h with
        | more h => simp [hitem] at h
        | item h hparse =>
          obtain ⟨rfl, rfl⟩ := Next.item.inj (hitem.symm.trans h)
          exact ih hfs' ((List.prefix_append_right_inj f).1 hbs) hparse

/-! ## Runs of completions that fit -/

/-- The completion fits behind `Rear`. -/
def fitsBehind (s : RecvSide) (bytes : List UInt8) : Bool :=
  s.recvQ.rear + bytes.length ≤ s.recvQ.bufferSize

/-- A receive completes when the handler ends with it. -/
theorem receiving_step {bytes : List UInt8} (h : (receiving enc pool).step s bytes = some t) :
    s.recvPost ≠ none ∧ recvHandler enc pool s bytes = some t := by
  simp only [receiving] at h
  split at h
  · cases h
  · rename_i hpost
    split_ifs at h
    exact ⟨by simp [hpost], h⟩

theorem runAll_of_run (h : (receiving enc pool).run fitsBehind s cs = some t) :
    runAll enc pool s cs = some t ∧ Fits enc pool s cs := by
  induction cs generalizing s with
  | nil => exact ⟨h, trivial⟩
  | cons bytes cs ih =>
    rw [Lts.run, Option.ite_none_right_eq_some] at h
    obtain ⟨hfit, h⟩ := h
    obtain ⟨u, hu, h⟩ := Option.bind_eq_some_iff.1 h
    obtain ⟨hpost, hhandler⟩ := receiving_step hu
    obtain ⟨hrun, hfits⟩ := ih h
    refine ⟨?_, fun _ => ⟨of_decide_eq_true hfit, fun v hv => ?_⟩⟩
    · obtain ⟨p, hp⟩ := Option.ne_none_iff_exists'.1 hpost
      rw [runAll, hp]
      simp [hhandler, hrun]
    · obtain rfl := Option.some.inj (hhandler.symm.trans hv)
      exact hfits

/-- **What `RecvQ` holds when a receive is posted**, with all that has arrived a part of a stream
of frames. -/
theorem length_data_of_run {memory : ℤ → UInt8} (hfs : ∀ f ∈ fs, IsFrame enc f)
    (hcs : cs.flatten <+: fs.flatten)
    (hrun : (receiving enc pool).run fitsBehind (initSession memory) cs = some s)
    (hpost : s.recvPost ≠ none) :
    Settled s.recvQ ∧ (s.recvQ.data.length = unfinished fs cs.flatten.length ∨
      s.recvQ.data.length = 5 ∧ unfinished fs cs.flatten.length = 0) := by
  obtain ⟨hall, hfits⟩ := runAll_of_run hrun
  obtain ⟨r, ps, ds, o, hr, hparse, -, hend, hset⟩ := runAll_initSession memory cs hfits
  obtain rfl := Option.some.inj (hr.symm.trans hall)
  obtain ⟨-, huse⟩ := outputs_of_ended hend
  cases o with
  | waiting rest =>
    refine ⟨hset, ?_⟩
    rw [(hend.waiting rest rfl).1]
    exact length_waiting hfs hcs hparse
  | rejected => exact absurd (recvPost_eq_none huse) hpost

/-- **A receive has room exactly as long as fewer than 4096 bytes have arrived of the frame that is
unfinished.** The peer sends frames that the encoder accepts, cut into completions that fit behind
`Rear`. -/
theorem posted_pos_iff {memory : ℤ → UInt8} (hfs : ∀ f ∈ fs, IsFrame enc f)
    (hcs : cs.flatten <+: fs.flatten)
    (hrun : (receiving enc pool).run fitsBehind (initSession memory) cs = some s) {ptr len : ℤ}
    (hpost : s.recvPost = some (ptr, len)) :
    0 < len ∧ ptr < s.recvQ.bufferSize ↔ unfinished fs cs.flatten.length < 4096 := by
  obtain ⟨hset, hlen⟩ := length_data_of_run hfs hcs hrun (by simp [hpost])
  obtain ⟨rfl, rfl⟩ := recvPost_eq hpost
  have hdata : (s.recvQ.data.length : ℤ) = s.recvQ.getDataSize :=
    Packet.length_data hset.inBounds
  have hsize := hset.bufferSize
  simp only [Packet.getFreeSize, Packet.getBufferSize, ← hdata]
  constructor
  · rintro ⟨hfree, -⟩
    omega
  · intro hless
    exact ⟨by omega, rear_lt_of_settled hset (by omega)⟩

theorem posted_pos_iff_cut :
    ∃ s ptr len, (receiving {} fun _ => ⟨.new 1024 fun _ => 0, rfl⟩).run fitsBehind
        (initSession fun _ => 0) [[0x77, 1, 0], [9, 62, 109, 0x77, 2]] = some s ∧
      s.recvPost = some (ptr, len) ∧
      (0 < len ∧ ptr < s.recvQ.bufferSize ↔
        unfinished [[0x77, 1, 0, 9, 62, 109], [0x77, 2, 0, 9, 0, 0, 0]] 8 < 4096) := by
  have hrun : ((receiving {} fun _ => ⟨.new 1024 fun _ => 0, rfl⟩).run fitsBehind
      (initSession fun _ => 0) [[0x77, 1, 0], [9, 62, 109, 0x77, 2]]).any
        (fun s => s.recvPost = some (2, 4094)) = true := by decide +kernel
  obtain ⟨s, hs, hpost⟩ := (Option.any_eq_true _ _).1 hrun
  have hpost := of_decide_eq_true hpost
  have hfs : ∀ f ∈ ([[0x77, 1, 0, 9, 62, 109], [0x77, 2, 0, 9, 0, 0, 0]] : List (List UInt8)),
      IsFrame {} f := by
    rintro f (_ | ⟨_, _ | ⟨_, ⟨⟩⟩⟩)
    · exact ⟨rfl, .inr (by decide), rfl⟩
    · exact ⟨rfl, .inr (by decide), rfl⟩
  exact ⟨s, _, _, hs, hpost, posted_pos_iff hfs ⟨[0, 9, 0, 0, 0], rfl⟩ hs hpost⟩

/-- A part of a frame is received and kept. -/
theorem receiving_part (enc : XorPacketEncoder) (pool : Pool) (bytes rest : List UInt8)
    (hset : Settled s.recvQ) (hc : s.crashed = false) (hu : s.sessionUseFlag = true)
    (hne : bytes ≠ []) (hfit : fitsBehind s bytes = true) (hrest : rest ≠ [])
    (hframe : IsFrame enc (s.recvQ.data ++ bytes ++ rest)) :
    ∃ t, (receiving enc pool).step s bytes = some t ∧ Settled t.recvQ ∧ t.crashed = false ∧
      t.sessionUseFlag = true ∧ t.recvQ.data = s.recvQ.data ++ bytes := by
  have hfit := of_decide_eq_true hfit
  have hdata : (received s.recvQ bytes).data = s.recvQ.data ++ bytes :=
    data_received hset.inBounds hfit
  have hmore := next_part hrest hframe
  obtain ⟨r, ps, ds, o, hr, hparse, -, hend, hsetr⟩ := recvHandler_parses enc pool bytes hset hc
  rw [hdata] at hparse
  obtain ⟨-, rfl⟩ := hparse.unique (.more hmore)
  obtain ⟨hkept, huse⟩ := hend.waiting _ rfl
  refine ⟨r, ?_, hsetr, hend.crashed.trans hc, huse.trans hu, hkept⟩
  have hpos := List.length_pos_iff.2 hne
  have hle : (bytes.length : ℤ) ≤ s.recvQ.getFreeSize := by
    have := hset.inBounds.front
    simp only [Packet.getFreeSize, Packet.getBufferSize, Packet.getDataSize]
    omega
  simp only [receiving, recvPost_of_use hc hu]
  rw [if_pos ⟨hpos, hle⟩, hr]

/-- A frame of 5 + 4092 bytes. -/
def longFrame : List UInt8 := 0x77 :: 252 :: 15 :: 0 :: 0 :: List.replicate 4092 0

theorem isFrame_longFrame : IsFrame {} longFrame :=
  ⟨rfl, .inr (by decide), List.length_replicate ..⟩

/-- **A long frame fills `RecvQ`, and a receive without room is posted.** -/
theorem exists_posted_empty :
    ¬∀ (pool : Pool) (memory : ℤ → UInt8) (fs cs : List (List UInt8)) (s : RecvSide),
      (∀ f ∈ fs, IsFrame {} f) → cs.flatten <+: fs.flatten →
      (receiving {} pool).run fitsBehind (initSession memory) cs = some s →
      ∀ ptr len, s.recvPost = some (ptr, len) → 0 < len := by
  intro hall
  let pool : Pool := fun _ => ⟨.new 1024 fun _ => 0, rfl⟩
  let s₀ := initSession fun _ => 0
  let a := longFrame.take 4076
  let b := (longFrame.drop 4076).take 20
  let c := (longFrame.drop 4076).drop 20
  have hlen : longFrame.length = 4097 := congrArg (· + 5) List.length_replicate
  have ha : a.length = 4076 := by simp [a, hlen]
  have hb : b.length = 20 := by simp [b, hlen]
  have hc : c.length = 1 := by simp [c, hlen]
  have hcut : a ++ (b ++ c) = longFrame := by
    rw [List.take_append_drop, List.take_append_drop]
  have hempty : s₀.recvQ.data = [] := Packet.data_clear
  have hset₀ : Settled s₀.recvQ := settled_initSession _
  obtain ⟨s, hs, hset, hcr, hu, hdata⟩ := receiving_part {} pool a (b ++ c) hset₀ rfl rfl
    (List.ne_nil_of_length_pos (by omega))
    (decide_eq_true (by rw [ha]; show (20 : ℤ) + 4076 ≤ 4096; decide))
    (by simp [← List.length_pos_iff, hb])
    (by rw [hempty, List.nil_append, hcut]; exact isFrame_longFrame)
  rw [hempty, List.nil_append] at hdata
  have hrear : s.recvQ.rear = 4076 := by
    have hlen := Packet.length_data hset.inBounds
    rw [hdata, ha, Packet.getDataSize] at hlen
    rcases hset.positions with ⟨h₁, -, -⟩ | ⟨h₁, h₂⟩ <;> omega
  obtain ⟨t, ht, hsett, hcrt, hut, hdatat⟩ := receiving_part {} pool b c hset hcr hu
    (List.ne_nil_of_length_pos (by omega))
    (decide_eq_true (by rw [hrear, hb, hset.bufferSize]; decide))
    (List.ne_nil_of_length_pos (by omega))
    (by rw [hdata, List.append_assoc, hcut]; exact isFrame_longFrame)
  have hfit₀ : fitsBehind s₀ a = true :=
    decide_eq_true (by rw [ha]; show (20 : ℤ) + 4076 ≤ 4096; decide)
  have hfit : fitsBehind s b = true :=
    decide_eq_true (by rw [hrear, hb, hset.bufferSize]; decide)
  have hrun : (receiving {} pool).run fitsBehind s₀ [a, b] = some t := by
    simp [Lts.run, hfit₀, hfit, hs, ht]
  have hfree : t.recvQ.getFreeSize = 0 := by
    have hlen := Packet.length_data hsett.inBounds
    rw [hdatat, hdata, List.length_append, ha, hb] at hlen
    have hsize := hsett.bufferSize
    simp only [Packet.getFreeSize, Packet.getBufferSize]
    omega
  have hpos := hall pool _ [longFrame] [a, b] t (by simpa using isFrame_longFrame)
    ⟨c, by simpa using hcut⟩ hrun _ _ (recvPost_of_use hcrt hut)
  omega

end NetworkLibrary.Receive
