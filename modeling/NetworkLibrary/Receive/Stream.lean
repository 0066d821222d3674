import NetworkLibrary.Receive.Bounds

/-!
# The receive side as a parser of the stream

A run of the receive side is a list of completions. Whatever the cut of the stream into
completions, the handler calls `OnRecv` with the payloads of the one parse of the stream, and kills
the session when the parse is rejected (`runAll_parses`). Two consequences:

* `outputs_unique`: any two cuts of a stream, however hostile, lead to the same outputs;
* `payloads_received`: a stream of frames is received as the payloads that were framed.
-/

namespace NetworkLibrary.Receive

open Foundations XorPacketEncoder

variable (enc : XorPacketEncoder) (pool : Pool)

/-- The receive side after the completions that bring the given bytes; what comes after the
session was killed is not received. -/
def runAll : RecvSide → List (List UInt8) → Option RecvSide
  | s, [] => some s
  | s, bytes :: cs =>
    match s.recvPost with
    | none => some s
    | some _ => (recvHandler enc pool s bytes).bind fun t => runAll t cs

/-- Each completion fits behind `Rear`. -/
def Fits : RecvSide → List (List UInt8) → Prop
  | _, [] => True
  | s, bytes :: cs => s.recvPost ≠ none → s.recvQ.rear + bytes.length ≤ s.recvQ.bufferSize ∧
      ∀ t, recvHandler enc pool s bytes = some t → Fits t cs

variable {enc pool} {s r t : RecvSide} {ds es : List (List UInt8)} {o : Outcome UInt8}
  {rest : List UInt8}

theorem recvPost_eq_none (h : s.sessionUseFlag = false) : s.recvPost = none := by
  simp [RecvSide.recvPost, h]

theorem recvPost_of_use (hc : s.crashed = false) (hu : s.sessionUseFlag = true) :
    s.recvPost = some (s.recvQ.rear, s.recvQ.getFreeSize) := by
  simp [RecvSide.recvPost, hc, hu, Packet.getWriteBufferPtr]

theorem Ended.trans (h₁ : Ended s r ds (.waiting rest)) (h₂ : Ended r t es o) :
    Ended s t (ds ++ es) o where
  inBounds := h₂.inBounds
  bufferSize := h₂.bufferSize.trans h₁.bufferSize
  crashed := h₂.crashed.trans h₁.crashed
  outputs := by simp [h₂.outputs, h₁.outputs, kills]
  waiting rest' h := ⟨(h₂.waiting rest' h).1, (h₂.waiting rest' h).2.trans (h₁.waiting rest rfl).2⟩
  rejected := h₂.rejected

theorem runAll_of_killed (h : s.sessionUseFlag = false) (cs : List (List UInt8)) :
    runAll enc pool s cs = some s := by
  cases cs with
  | nil => rfl
  | cons c cs => rw [runAll, recvPost_eq_none h]

/-- **A run parses the stream.** -/
theorem runAll_parses (cs : List (List UInt8)) (hset : Settled s.recvQ) (hc : s.crashed = false)
    (hu : s.sessionUseFlag = true) (hmore : enc.next s.recvQ.data = .more)
    (hfits : Fits enc pool s cs) :
    ∃ r ps ds o, runAll enc pool s cs = some r ∧
      Parses enc.next (s.recvQ.data ++ cs.flatten) ps o ∧
      ((∀ p ∈ ps, p.length ≤ 1004) → ds = ps) ∧ Ended s r ds o ∧ Settled r.recvQ := by
  induction cs generalizing s with
  | nil =>
    refine ⟨s, [], [], _, rfl, ?_, fun _ => rfl, ended_stop hset.inBounds, hset⟩
    rw [List.flatten_nil, List.append_nil]
    exact .more hmore
  | cons c cs ih =>
    have hpost := recvPost_of_use hc hu
    obtain ⟨hfit, hfits⟩ := hfits (by simp [hpost])
    obtain ⟨r, ps, ds, o, hr, hparse, hds, hend, hsetr⟩ :=
      recvHandler_parses enc pool c hset hc
    rw [data_received hset.inBounds hfit] at hparse
    have hrun : runAll enc pool s (c :: cs) = runAll enc pool r cs := by
      rw [runAll, hpost]
      simp [hr]
    rw [hrun, List.flatten_cons, ← List.append_assoc]
    cases o with
    | waiting rest =>
      obtain ⟨hdata, huse⟩ := hend.waiting rest rfl
      obtain ⟨r', ps', ds', o', hr', hparse', hds', hend', hset'⟩ := ih hsetr (hend.crashed.trans hc)
        (huse.trans hu) (hdata ▸ hparse.next_waiting) (hfits r hr)
      refine ⟨r', ps ++ ps', ds ++ ds', o', hr', hparse.append enc.stable_next (hdata ▸ hparse'),
        fun hps => ?_, hend.trans hend', hset'⟩
      rw [hds fun p hp => hps p (by simp [hp]), hds' fun p hp => hps p (by simp [hp])]
    | rejected =>
      exact ⟨r, ps, ds, _, runAll_of_killed (hend.rejected rfl) cs,
        hparse.append_rejected enc.stable_next cs.flatten, hds, hend, hsetr⟩

/-- A run from `InitSession` on. -/
theorem runAll_initSession (memory : ℤ → UInt8) (cs : List (List UInt8))
    (hfits : Fits enc pool (initSession memory) cs) :
    ∃ r ps ds o, runAll enc pool (initSession memory) cs = some r ∧
      Parses enc.next cs.flatten ps o ∧ ((∀ p ∈ ps, p.length ≤ 1004) → ds = ps) ∧
      Ended (initSession memory) r ds o ∧ Settled r.recvQ := by
  have hdata : (initSession memory).recvQ.data = [] := Packet.data_clear
  have := runAll_parses cs (settled_initSession memory) rfl rfl (by rw [hdata]; rfl) hfits
  rwa [hdata, List.nil_append] at this

/-! ## Any two cuts of a stream -/

theorem length_of_next {s payload rest : List UInt8} (h : enc.next s = .item payload rest)
    (hmax : enc.maxPayloadLen ≠ 0) : payload.length ≤ enc.maxPayloadLen.toNat := by
  match s, h with
  | code :: lo :: hi :: rKey :: body, h =>
    simp only [next] at h
    split_ifs at h with h₁ h₂ h₃ h₄
    split at h
    · rename_i hdef
      split_ifs at h
      obtain ⟨rfl, -⟩ := Next.item.inj h
      have hlen := congrArg List.length hdef
      rw [length_deframe, List.length_take, List.length_cons] at hlen
      have := not_and.1 h₃ hmax
      omega
    · cases h

theorem length_of_parses {s : List UInt8} {ps : List (List UInt8)} (h : Parses enc.next s ps o)
    (hmax : enc.maxPayloadLen ≠ 0) : ∀ p ∈ ps, p.length ≤ enc.maxPayloadLen.toNat := by
  induction h with
  | more => simp
  | reject => simp
  | item h _ ih =>
    intro p hp
    rcases List.mem_cons.1 hp with rfl | hp
    · exact length_of_next h hmax
    · exact ih p hp

theorem outputs_of_ended {memory : ℤ → UInt8} (h : Ended (initSession memory) r ds o) :
    r.outputs = ds.map .onRecv ++ kills o ∧ r.sessionUseFlag = o.isWaiting := by
  refine ⟨by simpa [initSession] using h.outputs, ?_⟩
  cases o with
  | waiting rest => exact (h.waiting rest rfl).2
  | rejected => exact h.rejected rfl

/-- **The outputs do not depend on how the stream was cut.** With a limit of 1 to 1004 bytes, any
two cuts of one stream lead to the same calls of `OnRecv` and `KillSession`; `KillSession` is
called at most once, and nothing comes after it. -/
theorem outputs_unique (enc : XorPacketEncoder) (h₀ : enc.maxPayloadLen ≠ 0)
    (hmax : enc.maxPayloadLen ≤ 1004) (pool₁ pool₂ : Pool) (memory₁ memory₂ : ℤ → UInt8)
    (cs₁ cs₂ : List (List UInt8)) (hcs : cs₁.flatten = cs₂.flatten)
    (h₁ : Fits enc pool₁ (initSession memory₁) cs₁)
    (h₂ : Fits enc pool₂ (initSession memory₂) cs₂) :
    ∃ r₁ r₂, runAll enc pool₁ (initSession memory₁) cs₁ = some r₁ ∧
      runAll enc pool₂ (initSession memory₂) cs₂ = some r₂ ∧
      r₁.outputs = r₂.outputs ∧ r₁.sessionUseFlag = r₂.sessionUseFlag ∧
      ∃ payloads : List (List UInt8),
        r₁.sessionUseFlag = true ∧ r₁.outputs = payloads.map .onRecv ∨
        r₁.sessionUseFlag = false ∧ r₁.outputs = payloads.map .onRecv ++ [.killSession] := by
  have hle : enc.maxPayloadLen.toNat ≤ 1004 := UInt16.le_iff_toNat_le.1 hmax
  have hlen : ∀ {s ps o}, Parses enc.next s ps o → ∀ p ∈ ps, p.length ≤ 1004 := fun h p hp =>
    (length_of_parses h h₀ p hp).trans hle
  obtain ⟨r₁, ps₁, ds₁, o₁, hr₁, hp₁, hd₁, he₁, -⟩ := runAll_initSession memory₁ cs₁ h₁
  obtain ⟨r₂, ps₂, ds₂, o₂, hr₂, hp₂, hd₂, he₂, -⟩ := runAll_initSession memory₂ cs₂ h₂
  obtain ⟨rfl, rfl⟩ := hp₁.unique (hcs ▸ hp₂)
  obtain rfl := hd₁ (hlen hp₁)
  obtain rfl := hd₂ (hlen hp₂)
  obtain ⟨hout₁, huse₁⟩ := outputs_of_ended he₁
  obtain ⟨hout₂, huse₂⟩ := outputs_of_ended he₂
  refine ⟨r₁, r₂, hr₁, hr₂, hout₁.trans hout₂.symm, huse₁.trans huse₂.symm, ds₂, ?_⟩
  cases o₁ with
  | waiting rest => exact .inl ⟨huse₁, by simpa [kills] using hout₁⟩
  | rejected => exact .inr ⟨huse₁, hout₁⟩

theorem fits_pair {a b : List UInt8} (ha : s.recvQ.rear + a.length ≤ s.recvQ.bufferSize)
    (hb : (recvHandler enc pool s a).all fun t =>
      t.recvQ.rear + (b.length : ℤ) ≤ t.recvQ.bufferSize) :
    Fits enc pool s [a, b] := fun _ =>
  ⟨ha, fun t ht _ => ⟨by simpa [ht] using hb, fun _ _ => trivial⟩⟩

theorem outputs_unique_badMagic :
    ∃ r₁ r₂, runAll { maxPayloadLen := 1004 } (fun _ => ⟨.new 1024 fun _ => 0, rfl⟩)
        (initSession fun _ => 0) [[0x78, 1, 2, 3, 4, 5]] = some r₁ ∧
      runAll { maxPayloadLen := 1004 } (fun _ => ⟨.new 1024 fun _ => 0, rfl⟩)
        (initSession fun _ => 0) [[0x78, 1, 2], [3, 4, 5]] = some r₂ ∧
      r₁.outputs = r₂.outputs ∧ r₁.sessionUseFlag = r₂.sessionUseFlag := by
  obtain ⟨r₁, r₂, h₁, h₂, h₃, h₄, -⟩ := outputs_unique
    { maxPayloadLen := 1004 } (by decide) (by decide) (fun _ => ⟨.new 1024 fun _ => 0, rfl⟩)
    (fun _ => ⟨.new 1024 fun _ => 0, rfl⟩) (fun _ => 0) (fun _ => 0)
    [[0x78, 1, 2, 3, 4, 5]] [[0x78, 1, 2], [3, 4, 5]] rfl
    (fun _ => ⟨by decide, fun _ _ => trivial⟩) (fits_pair (by decide) (by decide +kernel))
  exact ⟨r₁, r₂, h₁, h₂, h₃, h₄⟩

/-! ## A stream of frames -/

/-- A payload that is sent: the packet of the pool it is put into and the random byte of its
header. -/
structure Outgoing where
  payload : List UInt8
  rKey : UInt8
  pooled : PooledPacket

/-- The bytes sent for a payload: `PutData` into a packet of the pool, then `Encode`. -/
def wire (enc : XorPacketEncoder) (x : Outgoing) : List UInt8 :=
  (enc.encode x.rKey ((allocPacket x.pooled).putData x.payload).2).data

theorem wire_eq {x : Outgoing} (h : x.payload.length ≤ 1004) :
    wire enc x = enc.frame x.rKey x.payload := by
  have hsize := x.pooled.size
  have hfit : (allocPacket x.pooled).rear + x.payload.length ≤ (allocPacket x.pooled).bufferSize := by
    show Packet.kHeaderDefault + (x.payload.length : ℤ) ≤ x.pooled.bufferSize
    rw [hsize, Packet.kHeaderDefault, Packet.kBufferDefault]
    omega
  have hempty : (allocPacket x.pooled).data = [] := Packet.data_clear
  have hdata : ((allocPacket x.pooled).putData x.payload).2.data = x.payload := by
    rw [Packet.putData_of_le hfit]
    have := Packet.data_fill (p := allocPacket x.pooled) x.payload le_rfl
    rwa [hempty, List.nil_append] at this
  have hencode := enc.data_encode x.rKey (p := ((allocPacket x.pooled).putData x.payload).2) rfl
    (by
      rw [Packet.putData_of_le hfit]
      show Packet.kHeaderDefault ≤ Packet.kHeaderDefault + (x.payload.length : ℤ)
      omega)
    (by rw [hdata]; omega)
  rw [wire, hencode, hdata]

theorem frame_congr {enc' : XorPacketEncoder} (hcode : enc'.headerCode = enc.headerCode)
    (hkey : enc'.encryptKey = enc.encryptKey) (rKey : UInt8) (payload : List UInt8) :
    enc'.frame rKey payload = enc.frame rKey payload := by
  rw [frame, frame, hcode, hkey]

/-- A stream of frames, the last of which may be incomplete, is parsed into its payloads. -/
theorem parses_frames (xs : List Outgoing)
    (hxs : ∀ x ∈ xs, x.payload ≠ [] ∧ x.payload.length < 2 ^ 16 ∧ enc.Accepts x.payload.length)
    (hrest : enc.next rest = .more) :
    Parses enc.next ((xs.map fun x => enc.frame x.rKey x.payload).flatten ++ rest)
      (xs.map (·.payload)) (.waiting rest) := by
  induction xs with
  | nil => exact .more hrest
  | cons x xs ih =>
    obtain ⟨h₁, h₂, h₃⟩ := hxs x (by simp)
    rw [List.map_cons, List.map_cons, List.flatten_cons, List.append_assoc]
    exact .item (enc.next_frame _ h₁ h₂ h₃ _) (ih fun y hy => hxs y (by simp [hy]))

theorem rear_lt_of_settled {q : Packet} (h : Settled q) (hlen : q.data.length < 4096) :
    q.rear < q.bufferSize := by
  have hsize := h.bufferSize
  rw [Packet.data, length_load, Packet.getDataSize] at hlen
  rcases h.positions with ⟨h₁, h₂, h₃⟩ | ⟨h₁, h₂⟩
  · omega
  · omega

/-- **What was framed is received.** Frames of payloads of 1 to 1004 bytes, cut into completions in
any way, are passed to `OnRecv` as these payloads, in order, and each with the completion that
brings the last byte of its frame: after any of the completions the first `k` payloads have been
passed on, and of the next frame less than the whole has arrived. The session is not killed, the
process does not crash, and there is room for another byte behind `Rear`. -/
theorem payloads_received (enc sender : XorPacketEncoder) (pool : Pool)
    (hcode : sender.headerCode = enc.headerCode)
    (hkey : sender.encryptKey = enc.encryptKey)
    (hmax : enc.maxPayloadLen = 0 ∨ 1004 ≤ enc.maxPayloadLen) (xs : List Outgoing)
    (hxs : ∀ x ∈ xs, 1 ≤ x.payload.length ∧ x.payload.length ≤ 1004) (memory : ℤ → UInt8)
    (cs : List (List UInt8)) (hcs : cs.flatten <+: (xs.map (wire sender)).flatten)
    (hfits : Fits enc pool (initSession memory) cs) :
    ∃ r k rest, runAll enc pool (initSession memory) cs = some r ∧
      r.outputs = (xs.take k).map (.onRecv ·.payload) ∧
      cs.flatten = ((xs.take k).map (wire sender)).flatten ++ rest ∧
      (∀ x, xs[k]? = some x → rest.length < (wire sender x).length) ∧
      (xs[k]? = none → rest = []) ∧
      (cs.flatten = (xs.map (wire sender)).flatten → r.outputs = xs.map (.onRecv ·.payload)) ∧
      r.sessionUseFlag = true ∧ r.crashed = false ∧ r.recvQ.rear < r.recvQ.bufferSize := by
  have hacc : ∀ x ∈ xs, enc.Accepts x.payload.length := fun x hx => by
    have := (hxs x hx).2
    refine hmax.imp id fun hle => ?_
    have hle := UInt16.le_iff_toNat_le.1 hle
    exact this.trans hle
  have hframe : ∀ x ∈ xs, wire sender x = enc.frame x.rKey x.payload := fun x hx => by
    rw [wire_eq (hxs x hx).2, frame_congr hcode hkey]
  have hne : ∀ x ∈ xs, x.payload ≠ [] := fun x hx => List.ne_nil_of_length_pos (hxs x hx).1
  obtain ⟨k, rest, hflat, hk⟩ := exists_split_of_prefix_flatten (fun w hw => by
    obtain ⟨x, hx, rfl⟩ := List.mem_map.1 hw
    rw [hframe x hx]
    exact List.ne_nil_of_length_pos (by rw [length_frame, headerSize]; omega)) hcs
  rw [← List.map_take] at hflat
  have htake : ∀ x ∈ xs.take k, x ∈ xs := fun x hx => List.mem_of_mem_take hx
  -- what has arrived of the next frame is not a whole one
  have hmore : enc.next rest = .more := by
    rcases hk with ⟨-, rfl⟩ | ⟨w, t, hw, hrest, ht⟩
    · rfl
    · rw [List.getElem?_map, Option.map_eq_some_iff] at hw
      obtain ⟨x, hx, rfl⟩ := hw
      have hx := List.mem_of_getElem? hx
      rw [hframe x hx] at hrest
      exact enc.next_frame_take (hne x hx) ((hxs x hx).2.trans_lt (by decide)) (hacc x hx) hrest ht
  have hparse := parses_frames (xs.take k) (fun x hx =>
    ⟨hne x (htake x hx), (hxs x (htake x hx)).2.trans_lt (by decide), hacc x (htake x hx)⟩) hmore
  rw [← List.map_congr_left fun x hx => hframe x (htake x hx), ← hflat] at hparse
  obtain ⟨r, ps, ds, o, hr, hp, hds, hend, hset⟩ := runAll_initSession memory cs hfits
  obtain ⟨rfl, rfl⟩ := hp.unique hparse
  obtain rfl := hds fun p hp => by
    obtain ⟨x, hx, rfl⟩ := List.mem_map.1 hp
    exact (hxs x (htake x hx)).2
  obtain ⟨hout, huse⟩ := outputs_of_ended hend
  have hshort : rest.length < 4096 ∧ (∀ x, xs[k]? = some x → rest.length < (wire sender x).length) ∧
      (xs[k]? = none → rest = []) := by
    rcases hk with ⟨hnone, rfl⟩ | ⟨w, t, hw, hrest, ht⟩
    · rw [List.getElem?_map, Option.map_eq_none_iff] at hnone
      exact ⟨by decide, by simp [hnone], fun _ => rfl⟩
    · rw [List.getElem?_map, Option.map_eq_some_iff] at hw
      obtain ⟨x, hx, rfl⟩ := hw
      have hmem := List.mem_of_getElem? hx
      have hlt : rest.length < (wire sender x).length := by
        have := List.length_pos_iff.2 ht
        rw [← hrest, List.length_append]
        omega
      have hlen : (wire sender x).length ≤ 1009 := by
        have := (hxs x hmem).2
        rw [hframe x hmem, length_frame, headerSize]
        omega
      refine ⟨by omega, fun y hy => ?_, by simp [hx]⟩
      obtain rfl := Option.some.inj (hx.symm.trans hy)
      exact hlt
  have hall : cs.flatten = (xs.map (wire sender)).flatten →
      (xs.take k).map (·.payload) = xs.map (·.payload) := fun hfull => by
    have hparse' := parses_frames xs (fun x hx =>
      ⟨hne x hx, (hxs x hx).2.trans_lt (by decide), hacc x hx⟩)
      (show enc.next [] = .more from rfl)
    rw [← List.map_congr_left hframe, List.append_nil, ← hfull] at hparse'
    exact (hp.unique hparse').1
  rw [kills, List.append_nil] at hout
  refine ⟨r, k, rest, hr, by rw [hout, List.map_map]; rfl, hflat, hshort.2.1, hshort.2.2,
    fun hfull => by rw [hout, hall hfull, List.map_map]; rfl, huse, hend.crashed,
    rear_lt_of_settled hset ?_⟩
  rw [(hend.waiting rest rfl).1]
  exact hshort.1

theorem payloads_received_cut :
    ∃ r, runAll {} (fun _ => ⟨.new 1024 fun _ => 0, rfl⟩) (initSession fun _ => 0)
        [[0x77, 1, 0], [9, 62, 109]] = some r ∧
      r.outputs = [.onRecv [7]] ∧ r.sessionUseFlag = true ∧ r.recvQ.rear < r.recvQ.bufferSize := by
  obtain ⟨r, k, rest, hr, -, -, -, -, hall, huse, -, hroom⟩ := payloads_received {} {}
    (fun _ => ⟨.new 1024 fun _ => 0, rfl⟩) rfl rfl (.inr (by decide))
    [⟨[7], 9, ⟨.new 1024 fun _ => 0, rfl⟩⟩] (by simp) (fun _ => 0) [[0x77, 1, 0], [9, 62, 109]]
    (by decide +kernel) (fits_pair (by decide) (by decide +kernel))
  exact ⟨r, hr, hall (by decide +kernel), huse, hroom⟩

end NetworkLibrary.Receive
