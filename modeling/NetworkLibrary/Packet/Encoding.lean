import NetworkLibrary.Foundations.Threads
import NetworkLibrary.Packet.XorPacketEncoder

/-!
# Concurrent calls of `Encode`

Any number of threads pass one packet to `Encode`, as `SendPacket` does for each session that the
packet is sent to, and put it into a queue when `Encode` has returned. The body runs under the
packet's lock, one statement or iteration at a time, and the others may look at the flag in the
middle of it. It runs once, and nobody gets past `Encode` before it has ended (`encoded_once`).

`RefCnt`, which `SendPacket` raises before, is not read here and left out.
-/

namespace NetworkLibrary.Encoding

open Foundations

/-! ## The program -/

/-- What the threads share, and what has happened. -/
structure Shared where
  packet : Packet
  /-- `SRWEncode` is held. -/
  locked : Bool
  /-- The number of calls of `rand`. -/
  draws : ℕ
  /-- How often the body was entered. -/
  bodies : ℕ
  /-- The packet at each return of `Encode`. -/
  returned : List Packet
  /-- The data of the packet at each `SendQ.Enqueue` after it. -/
  enqueued : List (List UInt8)

/-- The local variables of `Encode`. -/
structure Locals where
  header : ℤ
  payload : ℤ
  payloadSize : ℕ

/-- A running call, by the statement it is about to execute. -/
inductive Frame
  /-- The first `IsEncoded()`. -/
  | test
  /-- `LockPacket()`. -/
  | lock
  /-- The second `IsEncoded()`. -/
  | retest
  /-- `GetReadBufferPtr`, `GetDataSize` and `MoveReadPos(-5)`. -/
  | moveReadPos
  /-- `header->Code`. -/
  | code (v : Locals)
  /-- `header->Len`. -/
  | len (v : Locals)
  /-- `header->RKey = rand() % 256`. -/
  | rKey (v : Locals)
  /-- The loop that sums up the payload, with `n` iterations left. -/
  | sum (v : Locals) (payload : ℤ) (n : ℕ) (checksum : UInt8)
  /-- `header->Checksum`. -/
  | checksum (v : Locals) (checksum : UInt8)
  /-- The first byte is enciphered. -/
  | first (v : Locals)
  /-- The loop that enciphers the payload, with `n` iterations left. -/
  | byte (n i : ℕ) (p : ℤ) (rk P : UInt8)
  /-- `EncodeFlag = true` in `UnlockPacket`. -/
  | setFlag
  /-- `SRWEncode.unlock()`. -/
  | unlock
  | ret
  /-- `SendQ.Enqueue(packet)` in `SendPacket`. -/
  | enqueue

variable (enc : XorPacketEncoder) (rand : ℕ → UInt8)

/-- One statement; `rand n` is what the call of `rand` after `n` others returns. -/
def exec (g : Shared) : Frame → Option (Shared × List Frame)
  | .test => if g.packet.encodeFlag then some (g, [.ret]) else some (g, [.lock])
  | .lock => if g.locked then none else some ({ g with locked := true }, [.retest])
  | .retest =>
    if g.packet.encodeFlag = false then some ({ g with bodies := g.bodies + 1 }, [.moveReadPos])
    else some (g, [.setFlag])
  | .moveReadPos =>
    let payload := g.packet.getReadBufferPtr
    let payloadSize := (g.packet.getDataSize % 2 ^ 16).toNat
    let packet := (g.packet.moveReadPos (-XorPacketEncoder.headerSize)).2
    some ({ g with packet := packet }, [.code ⟨packet.getReadBufferPtr, payload, payloadSize⟩])
  | .code v =>
    let buffer := Function.update g.packet.buffer v.header enc.headerCode
    some ({ g with packet := { g.packet with buffer := buffer } }, [.len v])
  | .len v =>
    let buffer := store g.packet.buffer (v.header + 1)
      [UInt8.ofNat v.payloadSize, UInt8.ofNat (v.payloadSize / 256)]
    some ({ g with packet := { g.packet with buffer := buffer } }, [.rKey v])
  | .rKey v =>
    let buffer := Function.update g.packet.buffer (v.header + 3) (rand g.draws)
    some ({ g with packet := { g.packet with buffer := buffer }, draws := g.draws + 1 },
      [.sum v v.payload v.payloadSize 0])
  | .sum v _ 0 checksum => some (g, [.checksum v checksum])
  | .sum v payload (n + 1) checksum =>
    some (g, [.sum v (payload + 1) n (checksum + g.packet.buffer payload)])
  | .checksum v checksum =>
    let buffer := Function.update g.packet.buffer (v.header + 4) checksum
    some ({ g with packet := { g.packet with buffer := buffer } }, [.first v])
  | .first v =>
    let m := g.packet.buffer
    let rk := m (v.header + 3)
    let P := m (v.header + 4) ^^^ (rk + 1)
    let buffer := Function.update m (v.header + 4) (P ^^^ (enc.encryptKey + 1))
    some ({ g with packet := { g.packet with buffer := buffer } },
      [.byte v.payloadSize 2 (v.header + 5) rk P])
  | .byte 0 _ _ _ _ => some (g, [.setFlag])
  | .byte (n + 1) i p rk P =>
    let m := g.packet.buffer
    let P := m p ^^^ (P + rk + UInt8.ofNat i)
    let buffer := Function.update m p (P ^^^ (m (p - 1) + enc.encryptKey + UInt8.ofNat i))
    some ({ g with packet := { g.packet with buffer := buffer } }, [.byte n (i + 1) (p + 1) rk P])
  | .setFlag => some ({ g with packet := { g.packet with encodeFlag := true } }, [.unlock])
  | .unlock => some ({ g with locked := false }, [.ret])
  | .ret => some ({ g with returned := g.returned ++ [g.packet] }, [.enqueue])
  | .enqueue => some ({ g with enqueued := g.enqueued ++ [g.packet.data] }, [])

/-- An idle thread calls `Encode`. -/
def program : Program Shared Frame Unit where
  call g _ := some (g, [.test])
  exec g f _ := exec enc rand g f

/-- A packet after `Clear`, or after what was written to it then: nobody has encoded it yet. -/
def start (packet : Packet) : Shared := ⟨packet, false, 0, 0, [], []⟩

/-! ## What the body has left to do -/

/-- The packet that the rest of the cipher makes. -/
def finishByte (n i : ℕ) (p : ℤ) (rk P : UInt8) (packet : Packet) : Packet :=
  { packet with buffer := XorPacketEncoder.encodeLoop enc.encryptKey rk n i p P packet.buffer
                encodeFlag := true }

def finishFirst (v : Locals) (packet : Packet) : Packet :=
  let m := packet.buffer
  let rk := m (v.header + 3)
  let P := m (v.header + 4) ^^^ (rk + 1)
  finishByte enc v.payloadSize 2 (v.header + 5) rk P
    { packet with buffer := Function.update m (v.header + 4) (P ^^^ (enc.encryptKey + 1)) }

def finishSum (v : Locals) (payload : ℤ) (n : ℕ) (checksum : UInt8) (packet : Packet) : Packet :=
  finishFirst enc v { packet with
    buffer := Function.update packet.buffer (v.header + 4)
      (XorPacketEncoder.sumLoop packet.buffer payload n checksum) }

def finishRKey (rk : UInt8) (v : Locals) (packet : Packet) : Packet :=
  finishSum enc v v.payload v.payloadSize 0
    { packet with buffer := Function.update packet.buffer (v.header + 3) rk }

def finishLen (rk : UInt8) (v : Locals) (packet : Packet) : Packet :=
  finishRKey enc rk v { packet with
    buffer := store packet.buffer (v.header + 1)
      [UInt8.ofNat v.payloadSize, UInt8.ofNat (v.payloadSize / 256)] }

def finishCode (rk : UInt8) (v : Locals) (packet : Packet) : Packet :=
  finishLen enc rk v
    { packet with buffer := Function.update packet.buffer v.header enc.headerCode }

/-- The packet that the body leaves behind when it goes on from a statement, if that lies in the
body; `rk` is the random byte that it draws or has drawn. -/
def finish (rk : UInt8) : Frame → Packet → Option Packet
  | .moveReadPos, p =>
    let packet := (p.moveReadPos (-XorPacketEncoder.headerSize)).2
    some (finishCode enc rk
      ⟨packet.getReadBufferPtr, p.getReadBufferPtr, (p.getDataSize % 2 ^ 16).toNat⟩ packet)
  | .code v, p => some (finishCode enc rk v p)
  | .len v, p => some (finishLen enc rk v p)
  | .rKey v, p => some (finishRKey enc rk v p)
  | .sum v payload n checksum, p => some (finishSum enc v payload n checksum p)
  | .checksum v checksum, p => some (finishSum enc v 0 0 checksum p)
  | .first v, p => some (finishFirst enc v p)
  | .byte n i a rk P, p => some (finishByte enc n i a rk P p)
  | .setFlag, p => some { p with encodeFlag := true }
  | _, _ => none

variable {enc rand} {rk : UInt8} {p p₀ : Packet} {g g' : Shared} {f : Frame} {new : List Frame}
  {t : Threads Shared Frame}

/-- The body as a whole does what `encode` does. -/
theorem finish_moveReadPos (hflag : p.encodeFlag = false) :
    finish enc rk .moveReadPos p = some (enc.encode rk p) := by
  have hstore (m : ℤ → UInt8) (a : ℤ) (code lo hi : UInt8) :
      Function.update (store (Function.update m a code) (a + 1) [lo, hi]) (a + 3) rk =
        store m a [code, lo, hi, rk] := by
    rw [store_cons, store_cons, store_cons, store_cons, store_cons, store_cons, store_nil, store_nil,
      show a + 1 + 1 + 1 = a + 3 by omega]
  have hread (m : ℤ → UInt8) (a : ℤ) (code lo hi c : UInt8) :
      Function.update (store m a [code, lo, hi, rk]) (a + 4) c (a + 3) = rk := by
    rw [Function.update_of_ne (by omega), store, if_pos (by omega), add_sub_cancel_left]
    rfl
  have hnext (a : ℤ) : a + 4 + 1 = a + 5 := by omega
  simp only [finish, finishCode, finishLen, finishRKey, finishSum, finishFirst, finishByte, hstore,
    hread, hnext, XorPacketEncoder.encode, hflag, Bool.false_eq_true, if_false]

/-! ## One statement -/

/-- The call has not entered the body, and does not know that the packet is encoded. -/
def Frame.outside : Frame → Bool
  | .test | .lock | .retest => true
  | _ => false

/-- The thread holds the lock. -/
def Frame.holds : Frame → Bool
  | .test | .lock | .ret | .enqueue => false
  | _ => true

/-- `Encode` has let the call pass. -/
def Frame.passed : Frame → Bool
  | .ret | .enqueue => true
  | _ => false

/-- The random byte has yet to be drawn. -/
def Frame.undrawn : Frame → Bool
  | .moveReadPos | .code _ | .len _ | .rKey _ => true
  | _ => false

/-- **One statement of the body** leads to the packet that the body leaves behind. -/
theorem exec_body {q : Packet} (h : exec enc rand g f = some (g', new))
    (hfin : finish enc rk f g.packet = some q) (hrand : f.undrawn = true → rand g.draws = rk) :
    (∃ f', new = [f'] ∧ finish enc rk f' g'.packet = some q ∧ f'.holds = true ∧
        (f'.undrawn = true → f.undrawn = true ∧ g'.draws = g.draws) ∧
        g' = { g with packet := g'.packet, draws := g'.draws } ∧
        g'.packet.encodeFlag = g.packet.encodeFlag) ∨
      new = [.unlock] ∧ g' = { g with packet := q } := by
  cases f with
  | test | lock | retest | unlock | ret | enqueue => cases hfin
  | moveReadPos | code v | len v =>
    cases h
    exact .inl ⟨_, rfl, hfin, rfl, fun _ => ⟨rfl, rfl⟩, rfl, rfl⟩
  | rKey v =>
    cases h
    refine .inl ⟨_, rfl, ?_, rfl, fun hu => (by cases hu), rfl, rfl⟩
    rw [hrand rfl]
    exact hfin
  | sum v payload n checksum =>
    cases n with
    | zero | succ n =>
      cases h
      exact .inl ⟨_, rfl, hfin, rfl, fun hu => (by cases hu), rfl, rfl⟩
  | checksum v checksum | first v =>
    cases h
    exact .inl ⟨_, rfl, hfin, rfl, fun hu => (by cases hu), rfl, rfl⟩
  | byte n i a rk' P =>
    cases n with
    | zero | succ n =>
      cases h
      exact .inl ⟨_, rfl, hfin, rfl, fun hu => (by cases hu), rfl, rfl⟩
  | setFlag =>
    cases h
    obtain rfl := Option.some.inj hfin
    exact .inr ⟨rfl, rfl⟩

/-! ## Invariants -/

/-- The weight of the thread that holds the lock. -/
def holders (f : Frame) : ℕ := if f.holds then 1 else 0

/-- At most one thread holds the lock. -/
def Locked (t : Threads Shared Frame) : Prop :=
  tally holders t.frames = if t.shared.locked then 1 else 0

/-- The packet before its only encoding, during it, or after it. -/
inductive Phase (enc : XorPacketEncoder) (rand : ℕ → UInt8) (p₀ : Packet) (t : Threads Shared Frame) :
    Prop
  | before : t.shared.packet = p₀ → t.shared.draws = 0 → t.shared.bodies = 0 →
      t.shared.returned = [] → t.shared.enqueued = [] → (∀ f ∈ t.frames, f.outside = true) →
      Phase enc rand p₀ t
  | during (body : Frame) : body ∈ t.frames → body.holds = true →
      finish enc (rand 0) body t.shared.packet = some (enc.encode (rand 0) p₀) →
      (body.undrawn = true → t.shared.draws = 0) → t.shared.packet.encodeFlag = false →
      t.shared.bodies = 1 → t.shared.returned = [] → t.shared.enqueued = [] →
      (∀ f ∈ t.frames, f.passed = false) → Phase enc rand p₀ t
  | after : t.shared.packet = enc.encode (rand 0) p₀ → t.shared.bodies = 1 →
      (∀ q ∈ t.shared.returned, q = enc.encode (rand 0) p₀) →
      (∀ b ∈ t.shared.enqueued, b = (enc.encode (rand 0) p₀).data) →
      (∀ f ∈ t.frames, f.outside = true ∨ f.passed = true ∨ f = .setFlag ∨ f = .unlock) →
      Phase enc rand p₀ t

/-- What a statement does to the lock. -/
theorem exec_locked (h : exec enc rand g f = some (g', new)) :
    f = .lock ∧ g.locked = false ∧ g'.locked = true ∧ tally holders new = 1 ∨
      f = .unlock ∧ g'.locked = false ∧ tally holders new = 0 ∨
      g'.locked = g.locked ∧ tally holders new = holders f := by
  revert h
  fun_cases exec enc rand g f <;> intro h <;> cases h <;> simp_all [holders, Frame.holds]

theorem call_eq {a : Unit} (h : (program enc rand).call g a = some (g', new)) :
    g' = g ∧ new = [.test] := by
  cases h
  exact ⟨rfl, rfl⟩

theorem locked (h : ((program enc rand).lts (start p₀)).Reachable t) : Locked t := by
  refine h.invariant (I := Locked) ?_ ?_
  · rintro _ ⟨n, rfl⟩
    simp [Locked, start]
  · intro s l u ih _ hst
    obtain ⟨pre, old, new, post, hs, hu, hf, -⟩ := Program.step_frames hst
    have hstep := Program.tally_step (w := holders) hs hu
    rw [Locked] at ih ⊢
    cases hf with
    | call hcall =>
      obtain ⟨hshared, rfl⟩ := call_eq hcall
      have hw : tally holders [Frame.test] = 0 := rfl
      rw [hshared, ← ih]
      simpa [hw] using hstep
    | exec he =>
      rw [tally_cons, tally_nil, add_zero] at hstep
      rcases exec_locked he with ⟨rfl, h₁, h₂, h₃⟩ | ⟨rfl, h₁, h₂⟩ | ⟨h₁, h₂⟩
      · have hw : holders .lock = 0 := rfl
        rw [h₁] at ih
        rw [h₂]
        simp only [Bool.false_eq_true, if_false, if_true] at ih ⊢
        omega
      · have hw : holders .unlock = 1 := rfl
        have hle : tally holders s.frames ≤ 1 := by
          rw [ih]
          split <;> omega
        rw [h₁]
        simp only [Bool.false_eq_true, if_false]
        omega
      · rw [h₁, ← ih]
        omega

/-- What a statement outside the body does. -/
theorem exec_outside (h : exec enc rand g f = some (g', new)) (hf : f.outside = true) :
    g' = { g with locked := g'.locked, bodies := g'.bodies } ∧
      (g.packet.encodeFlag = true ∧ g'.bodies = g.bodies ∧
          (∀ f' ∈ new, f'.outside = true ∨ f'.passed = true ∨ f' = .setFlag) ∨
        g.packet.encodeFlag = false ∧ g'.bodies = g.bodies ∧ (∀ f' ∈ new, f'.outside = true) ∨
        f.holds = true ∧ g.packet.encodeFlag = false ∧ g'.bodies = g.bodies + 1 ∧
          new = [.moveReadPos]) := by
  cases f <;> simp [Frame.outside] at hf <;> simp only [exec] at h <;> split at h <;> cases h <;>
    simp_all [Frame.outside, Frame.passed, Frame.holds]

theorem encodeFlag_encode : (enc.encode rk p).encodeFlag = true := by
  rw [XorPacketEncoder.encode]
  split
  · assumption
  · rfl

theorem outside_of_not (hpassed : f.passed = false) (hholds : f.holds = false) :
    f.outside = true := by
  cases f <;> simp_all [Frame.passed, Frame.holds, Frame.outside]

section Step

variable {s u : Threads Shared Frame} {pre post : List Frame} (hs : s.frames = pre ++ [f] ++ post)
  (hu : u.frames = pre ++ new ++ post) (he : exec enc rand s.shared f = some (u.shared, new))
include hs hu he

theorem phase_before (hp₀ : p₀.encodeFlag = false) (h₁ : s.shared.packet = p₀)
    (h₂ : s.shared.draws = 0) (h₃ : s.shared.bodies = 0) (h₄ : s.shared.returned = [])
    (h₅ : s.shared.enqueued = []) (h₆ : ∀ f ∈ s.frames, f.outside = true) :
    Phase enc rand p₀ u := by
  obtain ⟨hg, hcase⟩ := exec_outside he (h₆ f (by simp [hs]))
  have hpacket : u.shared.packet = p₀ := by rw [hg, h₁]
  have hdraws : u.shared.draws = 0 := by rw [hg, h₂]
  have hret : u.shared.returned = [] := by rw [hg, h₄]
  have henq : u.shared.enqueued = [] := by rw [hg, h₅]
  rcases hcase with ⟨htrue, -⟩ | ⟨-, hb, hnew⟩ | ⟨-, -, hb, rfl⟩
  · rw [h₁, hp₀] at htrue
    cases htrue
  · exact .before hpacket hdraws (hb.trans h₃) hret henq
      (Program.forall_frames_step hs hu h₆ hnew fun _ _ h => h)
  · -- the body is entered
    refine .during .moveReadPos (by simp [hu]) rfl ?_ (fun _ => hdraws) (by rw [hpacket, hp₀])
      (by rw [hb, h₃]) hret henq
      (Program.forall_frames_step hs hu h₆ (by simp [Frame.passed]) fun g _ hg => ?_)
    · rw [hpacket]
      exact finish_moveReadPos hp₀
    · cases g <;> first | rfl | cases hg

theorem phase_during {body : Frame} (hlock : Locked s) (hb : body ∈ s.frames)
    (h₁ : body.holds = true)
    (h₂ : finish enc (rand 0) body s.shared.packet = some (enc.encode (rand 0) p₀))
    (h₃ : body.undrawn = true → s.shared.draws = 0) (h₄ : s.shared.packet.encodeFlag = false)
    (h₅ : s.shared.bodies = 1) (h₆ : s.shared.returned = []) (h₇ : s.shared.enqueued = [])
    (h₈ : ∀ f ∈ s.frames, f.passed = false) : Phase enc rand p₀ u := by
  have hle : tally holders s.frames ≤ 1 := by
    rw [hlock]
    split <;> omega
  have hother (b : Frame) (hmem : b ∈ pre ++ post) : f.holds = true → b.holds = false := by
    intro hf
    have hadd := (Program.add_le_tally (w := holders) hs hmem).trans hle
    rw [tally_cons, tally_nil, holders, holders, if_pos hf] at hadd
    by_contra hcon
    rw [Bool.not_eq_false] at hcon
    rw [if_pos hcon] at hadd
    omega
  have hmem : body = f ∨ body ∈ pre ++ post := by
    rw [hs] at hb
    simp only [List.mem_append, List.mem_singleton] at hb ⊢
    tauto
  rcases hmem with rfl | hmem
  · rcases exec_body he h₂ fun hd => by rw [h₃ hd] with
      ⟨f', rfl, hfin, hholds, hdraw, hg, hflag⟩ | ⟨rfl, hg⟩
    · refine .during f' (by simp [hu]) hholds hfin
        (fun hd => (hdraw hd).2.trans (h₃ (hdraw hd).1)) (hflag.trans h₄) (by rw [hg, h₅])
        (by rw [hg, h₆]) (by rw [hg, h₇])
        (Program.forall_frames_step hs hu h₈ ?_ fun _ _ h => h)
      rw [List.forall_mem_singleton]
      cases f' <;> first | rfl | cases hfin
    · -- the body ends
      refine .after (by rw [hg]) (by rw [hg, h₅]) (by simp [hg, h₆]) (by simp [hg, h₇])
        (Program.forall_frames_step hs hu h₈ (by simp) fun b hmem hpassed => ?_)
      exact .inl (outside_of_not hpassed (hother b hmem h₁))
  · have hf : f.holds = false := by
      by_contra hcon
      rw [Bool.not_eq_false] at hcon
      rw [hother body hmem hcon] at h₁
      cases h₁
    obtain ⟨hg, hcase⟩ := exec_outside he (outside_of_not (h₈ f (by simp [hs])) hf)
    rcases hcase with ⟨htrue, -⟩ | ⟨-, hb, hnew⟩ | ⟨htrue, -⟩
    · rw [h₄] at htrue
      cases htrue
    · refine .during body (by rw [hu]; simp only [List.mem_append] at hmem ⊢; tauto) h₁
        (by rw [hg]; exact h₂) (by rw [hg]; exact h₃) (by rw [hg]; exact h₄) (hb.trans h₅)
        (by rw [hg, h₆]) (by rw [hg, h₇])
        (Program.forall_frames_step hs hu h₈ (fun g hg => ?_) fun _ _ h => h)
      have := hnew g hg
      cases g <;> first | rfl | cases this
    · rw [hf] at htrue
      cases htrue

theorem phase_after (h₁ : s.shared.packet = enc.encode (rand 0) p₀) (h₂ : s.shared.bodies = 1)
    (h₃ : ∀ q ∈ s.shared.returned, q = enc.encode (rand 0) p₀)
    (h₄ : ∀ b ∈ s.shared.enqueued, b = (enc.encode (rand 0) p₀).data)
    (h₅ : ∀ f ∈ s.frames, f.outside = true ∨ f.passed = true ∨ f = .setFlag ∨ f = .unlock) :
    Phase enc rand p₀ u := by
  have hflag : s.shared.packet.encodeFlag = true := by rw [h₁, encodeFlag_encode]
  have hframes (hnew : ∀ f ∈ new,
      f.outside = true ∨ f.passed = true ∨ f = .setFlag ∨ f = .unlock) :=
    Program.forall_frames_step hs hu h₅ hnew fun _ _ h => h
  rcases h₅ f (by simp [hs]) with hf | hf | rfl | rfl
  · obtain ⟨hg, hcase⟩ := exec_outside he hf
    rcases hcase with ⟨-, hb, hnew⟩ | ⟨hfalse, -⟩ | ⟨-, hfalse, -⟩
    · refine .after (by rw [hg, h₁]) (hb.trans h₂) (by rw [hg]; exact h₃) (by rw [hg]; exact h₄)
        (hframes fun f hf => ?_)
      rcases hnew f hf with h | h | h
      · exact .inl h
      · exact .inr (.inl h)
      · exact .inr (.inr (.inl h))
    · rw [hflag] at hfalse
      cases hfalse
    · rw [hflag] at hfalse
      cases hfalse
  · cases f with
    | ret =>
      obtain ⟨hg, rfl⟩ := Prod.mk.inj (Option.some.inj he)
      refine .after (by rw [← hg, h₁]) (by rw [← hg, h₂]) ?_ (by rw [← hg]; exact h₄)
        (hframes (by simp [Frame.passed]))
      rw [← hg]
      simpa [or_imp, forall_and, h₁] using h₃
    | enqueue =>
      obtain ⟨hg, rfl⟩ := Prod.mk.inj (Option.some.inj he)
      refine .after (by rw [← hg, h₁]) (by rw [← hg, h₂]) (by rw [← hg]; exact h₃) ?_
        (hframes (by simp))
      rw [← hg]
      simpa [or_imp, forall_and, h₁] using h₄
    | _ => cases hf
  · obtain ⟨hg, rfl⟩ := Prod.mk.inj (Option.some.inj he)
    refine .after ?_ (by rw [← hg, h₂]) (by rw [← hg]; exact h₃) (by rw [← hg]; exact h₄)
      (hframes (by simp))
    rw [← hg, ← h₁, ← hflag]
  · obtain ⟨hg, rfl⟩ := Prod.mk.inj (Option.some.inj he)
    exact .after (by rw [← hg, h₁]) (by rw [← hg, h₂]) (by rw [← hg]; exact h₃)
      (by rw [← hg]; exact h₄) (hframes (by simp [Frame.passed]))

end Step

theorem phase (hp₀ : p₀.encodeFlag = false)
    (h : ((program enc rand).lts (start p₀)).Reachable t) : Phase enc rand p₀ t := by
  refine h.invariant₂ (I := Phase enc rand p₀) (J := Locked) locked ?_ ?_
  · rintro _ ⟨n, rfl⟩
    exact .before rfl rfl rfl rfl rfl (by simp)
  · intro s l u hlock _ ih _ hst
    obtain ⟨pre, old, new, post, hs, hu, hf, -⟩ := Program.step_frames hst
    have hframes {Q : Frame → Prop} (hQ : ∀ f ∈ s.frames, Q f) (hnew : ∀ f ∈ new, Q f) :
        ∀ f ∈ u.frames, Q f :=
      Program.forall_frames_step hs hu hQ hnew fun _ _ h => h
    have hold (f : Frame) (h : f ∈ pre ++ post) : f ∈ u.frames := by
      rw [hu]
      simp only [List.mem_append] at h ⊢
      tauto
    cases hf with
    | call hcall =>
      obtain ⟨hshared, rfl⟩ := call_eq hcall
      have hkeep (f : Frame) (hf : f ∈ s.frames) : f ∈ u.frames := by
        rw [hs, List.append_nil] at hf
        exact hold f hf
      cases ih with
      | before h₁ h₂ h₃ h₄ h₅ h₆ =>
        rw [← hshared] at h₁ h₂ h₃ h₄ h₅
        exact .before h₁ h₂ h₃ h₄ h₅ (hframes h₆ (by simp [Frame.outside]))
      | during body hb h₁ h₂ h₃ h₄ h₅ h₆ h₇ h₈ =>
        rw [← hshared] at h₂ h₃ h₄ h₅ h₆ h₇
        exact .during body (hkeep body hb) h₁ h₂ h₃ h₄ h₅ h₆ h₇
          (hframes h₈ (by simp [Frame.passed]))
      | after h₁ h₂ h₃ h₄ h₅ =>
        rw [← hshared] at h₁ h₂ h₃ h₄
        exact .after h₁ h₂ h₃ h₄ (hframes h₅ (by simp [Frame.outside]))
    | @exec f _ _ he =>
      have he : exec enc rand s.shared f = some (u.shared, new) := he
      cases ih with
      | before h₁ h₂ h₃ h₄ h₅ h₆ => exact phase_before hs hu he hp₀ h₁ h₂ h₃ h₄ h₅ h₆
      | during body hb h₁ h₂ h₃ h₄ h₅ h₆ h₇ h₈ =>
        exact phase_during hs hu he hlock hb h₁ h₂ h₃ h₄ h₅ h₆ h₇ h₈
      | after h₁ h₂ h₃ h₄ h₅ => exact phase_after hs hu he h₁ h₂ h₃ h₄ h₅

/-- **The body of `Encode` runs once.** However the calls overlap, it is entered at most once, and
has been whenever a call has returned. At every return the packet is the one that a single `Encode`
leaves behind, so that all queues get the same bytes: the frame of what the packet held, with
`Front` moved back by 5. -/
theorem encoded_once (hp₀ : p₀.encodeFlag = false)
    (h : ((program enc rand).lts (start p₀)).Reachable t) :
    t.shared.bodies ≤ 1 ∧ (t.shared.returned ≠ [] → t.shared.bodies = 1) ∧
      (∀ q ∈ t.shared.returned, q = enc.encode (rand 0) p₀) ∧
      (∀ b ∈ t.shared.enqueued, b = (enc.encode (rand 0) p₀).data) ∧
      (p₀.front ≤ p₀.rear → (enc.encode (rand 0) p₀).front = p₀.front - 5 ∧
        (p₀.data.length < 2 ^ 16 →
          (enc.encode (rand 0) p₀).data = enc.frame (rand 0) p₀.data)) := by
  have hframe : p₀.front ≤ p₀.rear → (enc.encode (rand 0) p₀).front = p₀.front - 5 ∧
      (p₀.data.length < 2 ^ 16 →
        (enc.encode (rand 0) p₀).data = enc.frame (rand 0) p₀.data) := by
    intro hle
    refine ⟨?_, fun hlen => enc.data_encode _ hp₀ hle hlen⟩
    have hmove := Packet.moveReadPos_of_le (p := p₀) (-5) (by omega)
    simp only [XorPacketEncoder.encode, hp₀, XorPacketEncoder.headerSize, Nat.cast_ofNat, hmove]
    rfl
  cases phase hp₀ h with
  | before h₁ h₂ h₃ h₄ h₅ h₆ => simp_all
  | during body hb h₁ h₂ h₃ h₄ h₅ h₆ h₇ h₈ => simp_all
  | after h₁ h₂ h₃ h₄ h₅ => exact ⟨h₂.le, fun _ => h₂, h₃, h₄, hframe⟩

/-- Two threads pass the first test; one runs the body, and then the other. -/
theorem encoded_once_two :
    let p₀ := ((Packet.new 64 fun _ => 0).clear.putData [7]).2
    ∃ t, ((program {} fun _ => 9).lts (start p₀)).Reachable t ∧
      t.shared.returned = [({} : XorPacketEncoder).encode 9 p₀,
        ({} : XorPacketEncoder).encode 9 p₀] ∧ t.shared.bodies = 1 := by
  intro p₀
  obtain ⟨t, ht, hp⟩ := Lts.exists_reachable_of_run (M := (program {} fun _ => 9).lts (start p₀))
    ⟨2, rfl⟩ ([(0, ()), (0, ()), (1, ()), (1, ())] ++ List.replicate 15 (0, ()) ++
      List.replicate 6 (1, ()))
    (p := fun t => t.shared.returned.length == 2) (by decide +kernel)
  have hp₀ : p₀.encodeFlag = false := rfl
  obtain ⟨-, hone, hret, -⟩ := encoded_once hp₀ ht
  have hlen : t.shared.returned.length = 2 := by simpa using hp
  refine ⟨t, ht, ?_, hone fun h => by simp [h] at hlen⟩
  exact (List.eq_replicate_iff.2 ⟨hlen, hret⟩)

end NetworkLibrary.Encoding
