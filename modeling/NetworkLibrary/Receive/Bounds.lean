import NetworkLibrary.Receive.Loop

/-!
# The bounds of `RecvQ` and of the packets

`RecvPost` hands `GetFreeSize()` bytes from `Rear` on to `WSARecv`, but `GetFreeSize` is the buffer
size less the data, wherever the data starts. It is the room behind `Rear` when the data starts at
0 (`posted_inBounds_iff`). After `Clear` the data starts behind the header reserve, and the memory
posted ends 20 bytes beyond the buffer.

`GetPacketMessage` copies the payload behind the header reserve of a pooled packet of 1024 bytes,
whatever the limit of the encoder is (`copied_inBounds_iff`).
-/

namespace NetworkLibrary.Receive

open Foundations XorPacketEncoder

variable {enc : XorPacketEncoder} {pool : Pool} {q : Packet} {s : RecvSide}

/-! ## The memory posted -/

/-- `RecvQ` is settled in every reachable state. -/
theorem settled (h : (receiving enc pool).Reachable s) : Settled s.recvQ ∧ s.crashed = false := by
  refine h.invariant (I := fun s => Settled s.recvQ ∧ s.crashed = false) ?_ ?_
  · rintro _ ⟨memory, rfl⟩
    exact ⟨settled_initSession memory, rfl⟩
  · intro s bytes t ⟨hq, hc⟩ _ hst
    simp only [receiving] at hst
    split at hst
    · cases hst
    split at hst
    · obtain ⟨r, _, _, _, hr, -, -, hend, hset⟩ :=
        recvHandler_parses enc pool bytes hq hc
      obtain rfl : r = t := Option.some.inj (hr.symm.trans hst)
      exact ⟨hset, hend.crashed.trans hc⟩
    · cases hst

theorem recvPost_eq {ptr len : ℤ} (h : s.recvPost = some (ptr, len)) :
    ptr = s.recvQ.rear ∧ len = s.recvQ.getFreeSize := by
  simp only [RecvSide.recvPost] at h
  split at h
  · cases h
  split at h
  · cases h
  · exact ⟨(congrArg Prod.fst (Option.some.inj h)).symm, (congrArg Prod.snd (Option.some.inj h)).symm⟩

/-- **The memory posted lies inside `RecvQ`, and no byte of a completion is lost, exactly when
`RecvQ` holds data.** -/
theorem posted_inBounds_iff (h : (receiving enc pool).Reachable s) {ptr len : ℤ}
    (hpost : s.recvPost = some (ptr, len)) :
    (ptr + len ≤ s.recvQ.bufferSize ∧
      ∀ transferred, 1 ≤ transferred → transferred ≤ len →
        (s.recvQ.moveWritePos transferred).1 = transferred) ↔ 0 < s.recvQ.getDataSize := by
  obtain ⟨⟨hsize, hpos⟩, -⟩ := settled h
  obtain ⟨rfl, rfl⟩ := recvPost_eq hpost
  simp only [Packet.getFreeSize, Packet.getBufferSize, Packet.getDataSize, Packet.moveWritePos]
  constructor
  · rintro ⟨hle, -⟩
    omega
  · intro hdata
    refine ⟨by omega, fun n h₁ h₂ => ?_⟩
    rw [if_neg (by omega)]

/-- The first bytes of a frame have arrived, and are left after `ShiftDataToFront`: the next receive
is posted behind them, and ends where the buffer does. -/
theorem posted_inBounds_iff_part :
    ∃ s, (receiving {} fun _ => ⟨.new 1024 fun _ => 0, rfl⟩).Reachable s ∧
      s.recvPost = some (3, 4093) ∧ s.recvQ.getDataSize = 3 ∧ 3 + 4093 ≤ s.recvQ.bufferSize ∧
        ∀ transferred, 1 ≤ transferred → transferred ≤ 4093 →
          (s.recvQ.moveWritePos transferred).1 = transferred := by
  obtain ⟨s, hs, hp⟩ := Lts.exists_reachable_of_run
    (M := receiving {} fun _ => ⟨.new 1024 fun _ => 0, rfl⟩) (s := initSession fun _ => 0) ⟨_, rfl⟩
    [[0x77, 1, 0]]
    (p := fun s => decide (s.recvPost = some (3, 4093) ∧ s.recvQ.getDataSize = 3))
    (by decide +kernel)
  obtain ⟨hpost, hsize⟩ := of_decide_eq_true hp
  obtain ⟨hle, hall⟩ := (posted_inBounds_iff hs hpost).2 (by omega)
  exact ⟨s, hs, hpost, hsize, hle, hall⟩

/-- **The first receive of a session is posted beyond the end of `RecvQ`.** -/
theorem exists_posted_outside :
    ¬∀ (pool : Pool) s, (receiving {} pool).Reachable s → ∀ ptr len, s.recvPost = some (ptr, len) →
      ptr + len ≤ s.recvQ.bufferSize := by
  intro hall
  have := hall (fun _ => ⟨.new 1024 fun _ => 0, rfl⟩) (initSession fun _ => 0) (.start ⟨_, rfl⟩)
    20 4096 rfl
  exact absurd this (by decide)

/-! ## The copy into the packet -/

/-- `RecvQ` at the head of the handler's loop. -/
inductive AtLoop (enc : XorPacketEncoder) (pool : Pool) : Packet → Prop
  | received {s : RecvSide} {bytes : List UInt8} {ptr len : ℤ} : (receiving enc pool).Reachable s →
      s.recvPost = some (ptr, len) → 1 ≤ bytes.length → bytes.length ≤ len →
      AtLoop enc pool (received s.recvQ bytes)
  | again {q packet packet' q' : Packet} : AtLoop enc pool q → Accepted enc q →
      getPacketMessage enc packet q = .ok packet' q' → AtLoop enc pool q'

theorem AtLoop.inBounds (h : AtLoop enc pool q) : q.InBounds ∧ q.bufferSize = 4096 := by
  induction h with
  | received hs _ _ _ =>
    obtain ⟨hq, -⟩ := settled hs
    exact ⟨inBounds_received hq.inBounds, hq.bufferSize⟩
  | @again q packet packet' q' _ hacc hget ih =>
    have hsize : q.bufferSize < 2 ^ 32 := by rw [ih.2]; decide
    obtain ⟨-, -, -, hend⟩ := (accepted_iff ih.1 hsize).1 hacc
    obtain ⟨m, -, -, -, heq⟩ := getPacketMessage_eq ih.1 hsize hacc
    rw [heq] at hget
    split at hget
    · obtain ⟨-, rfl⟩ := Message.ok.inj hget
      have := ih.1.front
      exact ⟨⟨by dsimp only; omega, end_le_rear ih.1 hend, ih.1.size⟩, ih.2⟩
    · cases hget

/-- The payload of the message at the front of `RecvQ`, deciphered. -/
def payload (enc : XorPacketEncoder) (q : Packet) : List UInt8 :=
  (enc.deframe (q.buffer (q.front + 3))
    (load q.buffer (q.front + 4) (headerLen q.buffer q.front + 1))).tail

/-- `GetPacketMessage` copies the payload into the buffer of `packet`, and nothing but it. -/
def Copied (enc : XorPacketEncoder) (q packet : Packet) : Prop :=
  ∀ packet' q', getPacketMessage enc packet q = .ok packet' q' →
    packet.rear + headerLen q.buffer q.front ≤ packet.bufferSize ∧
      packet'.getDataSize = headerLen q.buffer q.front ∧ packet'.data = payload enc q

/-- A session whose first completion brings one frame. -/
def firstFrame (enc : XorPacketEncoder) (payload : List UInt8) : Packet :=
  received (initSession fun _ => 0).recvQ (enc.frame 0 payload)

/-- The frame is accepted and taken off, when it fits behind the header reserve of `RecvQ`. -/
theorem accepted_firstFrame (enc : XorPacketEncoder) (pool : Pool) {payload : List UInt8}
    (hne : payload ≠ []) (hlen : payload.length ≤ 4071) (hacc : enc.Accepts payload.length)
    (packet : Packet) :
    AtLoop enc pool (firstFrame enc payload) ∧ Accepted enc (firstFrame enc payload) ∧
      headerLen (firstFrame enc payload).buffer (firstFrame enc payload).front = payload.length ∧
      ∃ packet' q', getPacketMessage enc packet (firstFrame enc payload) = .ok packet' q' := by
  have hpos := List.length_pos_iff.2 hne
  have hset := settled_initSession fun _ => 0
  have hat : AtLoop enc pool (firstFrame enc payload) := by
    refine .received (.start ⟨_, rfl⟩) rfl ?_ ?_
    · rw [length_frame]
      omega
    · rw [length_frame]
      show ((headerSize + payload.length : ℕ) : ℤ) ≤ 4096
      simp only [headerSize]
      omega
  have hdata : (firstFrame enc payload).data = enc.frame 0 payload := by
    rw [firstFrame, data_received hset.inBounds]
    · rfl
    · rw [length_frame]
      show (20 : ℤ) + ((headerSize + payload.length : ℕ) : ℤ) ≤ 4096
      simp only [headerSize]
      omega
  have hnext : enc.next (firstFrame enc payload).data = .item payload [] := by
    rw [hdata, ← List.append_nil (enc.frame 0 payload)]
    exact enc.next_frame 0 hne (by omega) hacc []
  obtain ⟨hin, hbuf⟩ := hat.inBounds
  rcases message enc hin (by rw [hbuf]; decide) packet with
    ⟨hmore, -⟩ | ⟨hrej, -⟩ | ⟨p, m, hitem, -, ha, hplen, hget⟩
  · simp [hnext] at hmore
  · simp [hnext] at hrej
  · obtain ⟨rfl, -⟩ := Next.item.inj (hnext.symm.trans hitem)
    exact ⟨hat, ha, hplen.symm, _, _, hget⟩

/-- **The payload is copied inside the packet exactly when it has at most 1004 bytes**, or `Decode`
rejects the message and nothing is copied. -/
theorem copied_iff (h : AtLoop enc pool q) (hacc : Accepted enc q) (pooled : PooledPacket) :
    Copied enc q (allocPacket pooled) ↔
      headerLen q.buffer q.front ≤ 1004 ∨ (enc.decode q).1 = false := by
  obtain ⟨hin, hbuf⟩ := h.inBounds
  have hsize : q.bufferSize < 2 ^ 32 := by rw [hbuf]; decide
  obtain ⟨m, -, hload, hdec, heq⟩ := getPacketMessage_eq hin hsize hacc
  set len := headerLen q.buffer q.front with hlen
  have hrear : (allocPacket pooled).rear = 20 := rfl
  have hpooled : (allocPacket pooled).bufferSize = 1024 := pooled.size
  have hbody : payload enc q = load m (q.front + 5) len := by
    rw [payload, ← hlen, ← hload, load_succ, List.tail_cons, add_assoc]
    rfl
  rw [← Bool.not_eq_true, hdec, Copied]
  simp only [heq]
  by_cases hc : m (q.front + 4) = (load m (q.front + 5) len).sum
  · simp only [hc, not_true_eq_false, or_false]
    constructor
    · intro hall
      have := (hall _ _ rfl).1
      omega
    · rintro hle packet' q' hok
      obtain ⟨rfl, -⟩ := Message.ok.inj hok
      have hplen : (load m (q.front + 5) len).length = len := length_load ..
      have hdata := data_allocPacket pooled (load m (q.front + 5) len) (by omega)
      have hmove := Packet.moveWritePos_of_le (p := (allocPacket pooled).fill
        (load m (q.front + 5) len) (allocPacket pooled).rear) len (by
          show (allocPacket pooled).rear + len ≤ (allocPacket pooled).bufferSize
          omega)
      rw [hplen] at hdata
      refine ⟨by omega, ?_, hdata.trans hbody.symm⟩
      rw [hmove, Packet.getDataSize]
      exact add_sub_cancel_left _ _
  · simp [hc]

theorem copied_iff_firstFrame :
    Copied {} (firstFrame {} [1, 2, 3, 4]) (allocPacket ⟨.new 1024 fun _ => 0, rfl⟩) ↔
      headerLen (firstFrame {} [1, 2, 3, 4]).buffer (firstFrame {} [1, 2, 3, 4]).front ≤ 1004 ∨
        (({} : XorPacketEncoder).decode (firstFrame {} [1, 2, 3, 4])).1 = false := by
  obtain ⟨hat, hacc, -⟩ := accepted_firstFrame {}
    (fun _ => ⟨.new 1024 fun _ => 0, rfl⟩) (List.cons_ne_nil 1 [2, 3, 4]) (by simp)
    (.inr (by decide)) (.new 1024 fun _ => 0)
  exact copied_iff hat hacc _

/-- **A payload of 1005 bytes is copied beyond the end of the pooled packet.** -/
theorem exists_copied_outside :
    ¬∀ (pool : Pool) q, AtLoop {} pool q → Accepted {} q →
      ∀ pooled, Copied {} q (allocPacket pooled) := by
  intro hall
  set pooled : PooledPacket := ⟨.new 1024 fun _ => 0, rfl⟩
  have hlen : (List.replicate 1005 (0 : UInt8)).length = 1005 := List.length_replicate
  have hne : List.replicate 1005 (0 : UInt8) ≠ [] :=
    List.ne_nil_of_length_pos (by rw [hlen]; decide)
  obtain ⟨hat, hacc, hhead, packet', q', hget⟩ := accepted_firstFrame {}
    (fun _ => pooled) hne (by rw [hlen]; decide) (.inr (by rw [hlen]; decide)) (allocPacket pooled)
  have hle := (hall _ _ hat hacc pooled _ _ hget).1
  rw [hhead, hlen] at hle
  exact absurd hle (by decide)

end NetworkLibrary.Receive
