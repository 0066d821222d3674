import NetworkLibrary.Packet.Operators
import Mathlib.Data.List.TakeWhile

/-!
# `Packet` as a queue of values

As long as what is written fits and what is read has been written as that, a packet is a queue of
values: each read returns the value that was written at its place (`fifo_refines`). The data of the
packet are the values that have not been read yet, one after the other.
-/

namespace NetworkLibrary.Packet

open Foundations

/-! ## Values, and the calls that write and read them -/

/-- A value that is written. -/
inductive Item
  | scalar (t : Scalar) (value : BitVec (8 * t.sizeof))
  | chars (str : CString)
  | bytes (src : List UInt8)

/-- A call that reads a value; `GetData` says how many bytes it wants. -/
inductive Reader
  | scalar (t : Scalar)
  | chars
  | bytes (size : ℕ)
  deriving DecidableEq

/-- The string that a `char*` points to: what comes before the first NUL. -/
def cString (memory : List UInt8) : CString where
  chars := memory.takeWhile (· ≠ 0)
  noNul h := by simpa using List.mem_takeWhile_imp h

/-- `operator<<` or `PutData`. -/
def Item.write : Item → Packet → Packet
  | .scalar t value, p => p.insert t value
  | .chars str, p => p.insertChars str
  | .bytes src, p => (p.putData src).2

/-- `operator>>` or `GetData`. `>>` writes a NUL behind the characters of a string. -/
def Reader.read : Reader → Packet → Item × Packet
  | .scalar t, p =>
    let (value, p) := p.extract t
    (.scalar t value, p)
  | .chars, p =>
    let (str, p) := p.extractString
    (.chars (cString (str ++ [0])), p)
  | .bytes size, p =>
    let (_, dest, p) := p.getData size
    (.bytes dest, p)

/-- A call in a sequence of writes and reads. -/
inductive Event
  | write (x : Item)
  | read (r : Reader)

/-- A sequence of calls: the values read, and the packet after it. -/
def exec : Packet → List Event → List Item × Packet
  | p, [] => ([], p)
  | p, .write x :: es => exec (x.write p) es
  | p, .read r :: es =>
    let (x, p) := r.read p
    let (xs, p) := exec p es
    (x :: xs, p)

/-! ## The queue of values -/

/-- The call that reads the value as what it was written. -/
def Item.reader : Item → Reader
  | .scalar t _ => .scalar t
  | .chars _ => .chars
  | .bytes src => .bytes src.length

/-- The value in the packet. -/
def Item.encoded : Item → List UInt8
  | .scalar t value => toBytes t.sizeof value
  | .chars str => toBytes 2 str.len ++ str.chars
  | .bytes src => src

/-- A string of at most 32767 characters. -/
def Item.Short : Item → Prop
  | .chars str => str.chars.length ≤ 32767
  | _ => True

/-- The values that the calls of a queue return and the values left in it, if each read finds a
value in the queue that was written as what it reads. -/
def fifo : List Item → List Event → Option (List Item × List Item)
  | pending, [] => some ([], pending)
  | pending, .write x :: es => fifo (pending ++ [x]) es
  | [], .read _ :: _ => none
  | x :: pending, .read r :: es =>
    if x.reader = r then (fifo pending es).map fun (xs, rest) => (x :: xs, rest) else none

/-- The values that are written. -/
def writtenItems : List Event → List Item
  | [] => []
  | .write x :: es => x :: writtenItems es
  | .read _ :: es => writtenItems es

/-- The bytes of values one after the other. -/
def encodedAll (xs : List Item) : List UInt8 := xs.flatMap Item.encoded

variable {p q : Packet} {x : Item} {xs rest pending : List Item} {es : List Event}
  {bytes tail : List UInt8}

/-! ## One call -/

/-- `bytes` behind the data. -/
def append (p : Packet) (bytes : List UInt8) : Packet :=
  { p.fill bytes p.rear with rear := p.rear + bytes.length }

theorem data_append (hp : p.InBounds) (bytes : List UInt8) :
    (p.append bytes).data = p.data ++ bytes :=
  data_fill bytes hp.rear

theorem inBounds_append (hp : p.InBounds) (h : p.rear + bytes.length ≤ p.bufferSize) :
    (p.append bytes).InBounds :=
  ⟨hp.front, le_add_of_le_of_nonneg hp.rear (Int.natCast_nonneg _), h⟩

theorem len_toInt {str : CString} (h : str.chars.length ≤ 32767) :
    str.len.toInt = str.chars.length := by
  rw [CString.len, BitVec.toInt_ofNat', Int.bmod_def]
  omega

theorem sizeT_natCast {n : ℕ} (h : n ≤ 32767) : sizeT n = n := by
  rw [sizeT]
  omega

theorem cString_eq (str : CString) : cString (str.chars ++ [0]) = str := by
  have hne : ∀ c ∈ str.chars, decide (c ≠ 0) = true := fun c hc =>
    decide_eq_true fun h => str.noNul (h ▸ hc)
  cases str
  simp only [cString, CString.mk.injEq]
  rw [List.takeWhile_append_of_pos hne]
  simp

/-- `<<` on a string puts its length and its characters behind the data. -/
theorem insertChars_eq {str : CString} (h : str.chars.length ≤ 32767) :
    p.insertChars str = (p.append (toBytes 2 str.len)).append str.chars := by
  simp only [insertChars, insertString, append, fill, length_toBytes, len_toInt h,
    sizeT_natCast h, List.take_length]
  rw [← add_assoc]
  rfl

/-- **A write** puts the bytes of the value behind the data. -/
theorem write_eq (hp : p.InBounds) (hx : x.Short) (h : p.rear + x.encoded.length ≤ p.bufferSize) :
    (x.write p).data = p.data ++ x.encoded ∧ (x.write p).InBounds ∧
      (x.write p).rear = p.rear + x.encoded.length ∧ (x.write p).bufferSize = p.bufferSize := by
  cases x with
  | scalar t value =>
    have heq : (Item.scalar t value).write p = p.append (toBytes t.sizeof value) := by
      simp only [Item.write, insert, insertBytes, append, length_toBytes]
      rfl
    rw [heq]
    exact ⟨data_append hp _, inBounds_append hp h, rfl, rfl⟩
  | chars str =>
    have hlen : (toBytes 2 str.len ++ str.chars).length = 2 + str.chars.length := by
      rw [List.length_append, length_toBytes]
    have h₁ : p.rear + (toBytes 2 str.len).length ≤ p.bufferSize := by
      rw [Item.encoded, hlen] at h
      rw [length_toBytes]
      omega
    have hq := inBounds_append hp h₁
    have h₂ : (p.append (toBytes 2 str.len)).rear + str.chars.length ≤ p.bufferSize := by
      rw [Item.encoded, hlen] at h
      simp only [append, length_toBytes]
      omega
    rw [Item.write, insertChars_eq hx]
    refine ⟨?_, inBounds_append hq h₂, ?_, rfl⟩
    · rw [data_append hq, data_append hp, List.append_assoc, Item.encoded]
    · rw [Item.encoded, hlen]
      simp only [append, length_toBytes]
      omega
  | bytes src =>
    have heq : (Item.bytes src).write p = p.append src :=
      congrArg Prod.snd (putData_of_le h)
    rw [heq]
    exact ⟨data_append hp _, inBounds_append hp h, rfl, rfl⟩

/-- The front of the data. -/
theorem load_front (hp : p.InBounds) (h : p.data = bytes ++ tail) :
    p.front + bytes.length ≤ p.rear ∧ load p.buffer p.front bytes.length = bytes ∧
      ({ p with front := p.front + bytes.length } : Packet).data = tail := by
  have hlen := congrArg List.length h
  rw [data, length_load, List.length_append] at hlen
  have hle : p.front + bytes.length ≤ p.rear := by
    have := hp.rear
    rw [getDataSize] at hlen
    omega
  refine ⟨hle, ?_, ?_⟩
  · rw [← take_load (n := p.getDataSize.toNat) (by omega), ← data, h, List.take_left' rfl]
  · rw [data_front hle, h, List.drop_left' rfl]

/-- **A read** of what is at the front returns it and takes it off. -/
theorem read_eq (hp : p.InBounds) (hx : x.Short) (tail : List UInt8)
    (h : p.data = x.encoded ++ tail) :
    ∃ k, x.reader.read p = (x, { p with front := p.front + k }) ∧
      ({ p with front := p.front + k } : Packet).InBounds ∧
      ({ p with front := p.front + k } : Packet).data = tail := by
  have hfront := hp.front
  obtain ⟨hle, hload, hdata⟩ := load_front hp h
  cases x with
  | scalar t value =>
    rw [Item.encoded, length_toBytes] at hle hload hdata
    refine ⟨t.sizeof, ?_, ⟨?_, hle, hp.size⟩, hdata⟩
    · simp only [Item.reader, Reader.read, extract, hload, ofBytes_toBytes]
    · dsimp only
      omega
  | chars str =>
    -- the length, and the characters behind it
    rw [Item.encoded, List.append_assoc] at h
    obtain ⟨hle₁, hload₁, hdata₁⟩ := load_front hp h
    rw [length_toBytes] at hle₁ hload₁ hdata₁
    set p' : Packet := { p with front := p.front + (2 : ℕ) } with hp'
    have hin : p'.InBounds := ⟨by dsimp only [p']; omega, hle₁, hp.size⟩
    obtain ⟨hle₂, hload₂, hdata₂⟩ := load_front hin hdata₁
    have hpeek : p.peekLen = str.len := by
      rw [peekLen, hload₁]
      exact ofBytes_toBytes 2 str.len
    have hmove : ({ p with front := p.front + ((2 + str.chars.length : ℕ) : ℤ) } : Packet) =
        { p' with front := p'.front + str.chars.length } := by
      rw [hp', Nat.cast_add, ← add_assoc]
    refine ⟨(2 + str.chars.length : ℕ), ?_, ?_, hmove ▸ hdata₂⟩
    · simp only [Item.reader, Reader.read, extractString, hpeek, len_toInt hx, sizeT_natCast hx]
      rw [show load p.buffer (p.front + 2) str.chars.length = str.chars from hload₂, cString_eq]
      rfl
    · rw [hmove]
      exact ⟨add_nonneg hin.front (Int.natCast_nonneg _), hle₂, hp.size⟩
  | bytes src =>
    have hle : p.front + src.length ≤ p.rear := hle
    have hload : load p.buffer p.front src.length = src := hload
    refine ⟨src.length, ?_, ⟨?_, hle, hp.size⟩, hdata⟩
    · simp only [Item.reader, Reader.read, getData_of_le _ hle, Int.toNat_natCast, hload]
    · dsimp only
      omega

/-! ## A sequence of calls -/

theorem fifo_refines_aux (hp : p.InBounds) (hdata : p.data = encodedAll pending)
    (hpending : ∀ x ∈ pending, x.Short) (hes : ∀ x ∈ writtenItems es, x.Short)
    (hfit : p.rear + (encodedAll (writtenItems es)).length ≤ p.bufferSize)
    (h : fifo pending es = some (xs, rest)) :
    (exec p es).1 = xs ∧ (exec p es).2.data = encodedAll rest := by
  induction es generalizing p pending xs rest with
  | nil =>
    obtain ⟨rfl, rfl⟩ := Prod.mk.inj (Option.some.inj h)
    exact ⟨rfl, hdata⟩
  | cons e es ih =>
    cases e with
    | write x =>
      obtain ⟨hx, hes⟩ := List.forall_mem_cons.1 hes
      simp only [writtenItems, encodedAll, List.flatMap_cons, List.length_append, Nat.cast_add]
        at hfit
      obtain ⟨hd, hin, hr, hs⟩ := write_eq hp hx (by omega)
      refine ih hin ?_ (List.forall_mem_append.2 ⟨hpending, by simpa using hx⟩) hes ?_ h
      · rw [hd, hdata]
        simp [encodedAll]
      · rw [hr, hs, encodedAll]
        omega
    | read r =>
      cases pending with
      | nil => cases h
      | cons x pending =>
        obtain ⟨hx, hpending⟩ := List.forall_mem_cons.1 hpending
        rw [fifo, Option.ite_none_right_eq_some] at h
        obtain ⟨rfl, h⟩ := h
        obtain ⟨⟨ys, zs⟩, hys, hxs⟩ := Option.map_eq_some_iff.1 h
        obtain ⟨rfl, rfl⟩ := Prod.mk.inj hxs
        obtain ⟨k, hread, hin, htail⟩ := read_eq hp hx (encodedAll pending) hdata
        obtain ⟨h₁, h₂⟩ := ih hin htail hpending hes hfit hys
        simp only [exec, hread]
        exact ⟨congrArg (x :: ·) h₁, h₂⟩

/-- **A packet is a queue of values.** From a cleared packet on, as long as what is written fits
into the buffer and each read finds a value that was written as what it reads, the reads return the
values written, in order, and the data of the packet are the values not read yet. -/
theorem fifo_refines (hes : ∀ x ∈ writtenItems es, x.Short)
    (hfit : q.clear.rear + (encodedAll (writtenItems es)).length ≤ q.bufferSize)
    (h : fifo [] es = some (xs, rest)) :
    (exec q.clear es).1 = xs ∧ (exec q.clear es).2.data = encodedAll rest := by
  have hrear : q.clear.rear = 20 := rfl
  have hin : q.clear.InBounds := by
    refine ⟨(by decide : (0 : ℤ) ≤ kHeaderDefault), le_rfl, ?_⟩
    show q.clear.rear ≤ q.bufferSize
    omega
  exact fifo_refines_aux hin data_clear (by simp) hes hfit h

/-- A number, a string and bytes; the number is read before the last is written. -/
theorem fifo_refines_mixed :
    let es : List Event := [.write (.scalar .int 42), .write (.chars ⟨[72, 105], by decide⟩),
      .read (.scalar .int), .write (.bytes [1, 2, 3]), .read .chars]
    (exec (new 64 fun _ => 0).clear es).1 = [.scalar .int 42, .chars ⟨[72, 105], by decide⟩] ∧
      (exec (new 64 fun _ => 0).clear es).2.data = encodedAll [.bytes [1, 2, 3]] :=
  fifo_refines (by simp [writtenItems, Item.Short]) (by decide) rfl

end NetworkLibrary.Packet
