import NetworkLibrary.Foundations.LittleEndian
import NetworkLibrary.Packet.Buffer

/-!
# The operators of `Packet`

`PutData`, `GetData`, `MoveWritePos` and `MoveReadPos` move a position as far as there is room or
data. The operators `<<` and `>>` do not look: they copy as many bytes as the value has, and a
string as many as its length says, which `<<` cuts to a `short` and `>>` takes from the buffer.
The positions stay in order and the copies inside exactly as long as each `<<` has room and each
`>>` has data (`safe_along_iff`).

A position that has left the buffer is not reduced modulo `2^32`: the copy that led there was
outside already.
-/

namespace NetworkLibrary.Packet

open Foundations

/-! ## The operators -/

/-- The types that both operators take. A `float` or a `double` is its bit pattern. -/
inductive Scalar
  | unsignedChar | char | short | unsignedShort | int | unsignedLong | float | int64 | double
  deriving DecidableEq

def Scalar.sizeof : Scalar → ℕ
  | .unsignedChar | .char => 1
  | .short | .unsignedShort => 2
  | .int | .unsignedLong | .float => 4
  | .int64 | .double => 8

/-- What a `char*` points to, up to its NUL. -/
structure CString where
  chars : List UInt8
  noNul : 0 ∉ chars

/-- What a `WCHAR*` points to, up to its NUL. -/
structure WString where
  chars : List UInt16
  noNul : 0 ∉ chars

/-- The characters of a `WCHAR*` in memory. -/
def wideBytes (s : List UInt16) : List UInt8 := s.flatMap fun c => toBytes 2 c.toBitVec

/-- `(short)strlen(str)`. -/
def CString.len (str : CString) : BitVec 16 := BitVec.ofNat 16 str.chars.length

/-- `(short)wcslen(str) * 2`, cut to a `short` again. -/
def WString.len (str : WString) : BitVec 16 := BitVec.ofNat 16 str.chars.length * 2

/-- An `int` or a `short` as the `size_t` that `memcpy` takes. -/
def sizeT (size : ℤ) : ℕ := (size % 2 ^ 64).toNat

variable (p : Packet)

/-- What `<<` does with a value of `n` bytes. -/
def insertBytes (n : ℕ) (value : BitVec (8 * n)) : Packet :=
  { p with buffer := store p.buffer p.rear (toBytes n value)
           rear := p.rear + n }

/-- `operator<<` on a value of one of the types. -/
def insert (t : Scalar) (value : BitVec (8 * t.sizeof)) : Packet := p.insertBytes t.sizeof value

/-- `operator<<(long)`, which has no counterpart. -/
def insertLong (value : BitVec 32) : Packet := p.insertBytes 4 value

/-- What `<<` does with a string in memory: the length goes before it. -/
def insertString (len : BitVec 16) (str : List UInt8) : Packet :=
  let buffer := store p.buffer p.rear (toBytes 2 len)
  { p with buffer := store buffer (p.rear + 2) (str.take (sizeT len.toInt))
           rear := p.rear + (2 + len.toInt) }

/-- `operator<<(char*)`. -/
def insertChars (str : CString) : Packet := p.insertString str.len str.chars

/-- `operator<<(WCHAR*)`. -/
def insertWChars (str : WString) : Packet := p.insertString str.len (wideBytes str.chars)

/-- `operator>>` on a value of one of the types. -/
def extract (t : Scalar) : BitVec (8 * t.sizeof) × Packet :=
  (ofBytes t.sizeof (load p.buffer p.front t.sizeof), { p with front := p.front + t.sizeof })

/-- `*(short*)&Buffer[Front]`. -/
def peekLen : BitVec 16 := ofBytes 2 (load p.buffer p.front 2)

/-- What both `>>` on a string do: the bytes that are copied to it, and the packet. The NUL that
they write behind these bytes is not in the packet's buffer. -/
def extractString : List UInt8 × Packet :=
  let len := p.peekLen.toInt
  (load p.buffer (p.front + 2) (sizeT len), { p with front := p.front + (2 + len) })

/-- `PutData(WCHAR*, int)`. -/
def putDataW (src : List UInt16) : ℤ × Packet := p.putData (wideBytes src)

/-- `GetData(WCHAR*, int)`. -/
def getDataW (size : ℤ) : ℤ × List UInt8 × Packet := p.getData (size * 2)

/-! ## Operations and their footprints -/

/-- A call of one of the operations, with a size that is not negative. -/
inductive Op
  | insert (t : Scalar) (value : BitVec (8 * t.sizeof))
  | insertLong (value : BitVec 32)
  | insertChars (str : CString)
  | insertWChars (str : WString)
  | extract (t : Scalar)
  | extractChars
  | extractWChars
  | putData (src : List UInt8)
  | putDataW (src : List UInt16)
  | getData (size : ℕ)
  | getDataW (size : ℕ)
  | moveWritePos (size : ℕ)
  | moveReadPos (size : ℕ)
  | shiftDataToFront
  | clear

/-- The packet after the operation. -/
def Op.apply : Op → Packet → Packet
  | .insert t value, p => p.insert t value
  | .insertLong value, p => p.insertLong value
  | .insertChars str, p => p.insertChars str
  | .insertWChars str, p => p.insertWChars str
  | .extract t, p => (p.extract t).2
  | .extractChars, p | .extractWChars, p => p.extractString.2
  | .putData src, p => (p.putData src).2
  | .putDataW src, p => (p.putDataW src).2
  | .getData size, p => (p.getData size).2.2
  | .getDataW size, p => (p.getDataW size).2.2
  | .moveWritePos size, p => (p.moveWritePos size).2
  | .moveReadPos size, p => (p.moveReadPos size).2
  | .shiftDataToFront, p => p.shiftDataToFront
  | .clear, p => p.clear

/-- The ranges of `Buffer`, offset and length, that the operation writes. -/
def Op.writes : Op → Packet → List (ℤ × ℕ)
  | .insert t _, p => [(p.rear, t.sizeof)]
  | .insertLong _, p => [(p.rear, 4)]
  | .insertChars str, p => [(p.rear, 2), (p.rear + 2, sizeT str.len.toInt)]
  | .insertWChars str, p => [(p.rear, 2), (p.rear + 2, sizeT str.len.toInt)]
  | .putData src, p => [(p.rear, sizeT (p.putData src).1)]
  | .putDataW src, p => [(p.rear, sizeT (p.putDataW src).1)]
  | .shiftDataToFront, p => [(0, sizeT p.getDataSize)]
  | _, _ => []

/-- The ranges of `Buffer` that the operation reads. -/
def Op.reads : Op → Packet → List (ℤ × ℕ)
  | .extract t, p => [(p.front, t.sizeof)]
  | .extractChars, p | .extractWChars, p =>
    [(p.front, 2), (p.front + 2, sizeT p.peekLen.toInt)]
  | .getData size, p => [(p.front, sizeT (p.getData size).1)]
  | .getDataW size, p => [(p.front, sizeT (p.getDataW size).1)]
  | .shiftDataToFront, p => [(p.front, sizeT p.getDataSize)]
  | _, _ => []

/-- The range lies between two positions. -/
def Inside (lo hi : ℤ) (r : ℤ × ℕ) : Prop := r.2 = 0 ∨ lo ≤ r.1 ∧ r.1 + r.2 ≤ hi

/-- The operation keeps the positions in order and its accesses where they belong. -/
structure Op.Safe (op : Op) (p : Packet) : Prop where
  inBounds : (op.apply p).InBounds
  writes : ∀ r ∈ op.writes p, Inside 0 p.bufferSize r
  reads : ∀ r ∈ op.reads p, Inside p.front p.rear r

/-- A `<<` has room, a `>>` has data, and the length of a string is not negative as a `short`. -/
def Op.Fits : Op → Packet → Prop
  | .insert t _, p => p.rear + t.sizeof ≤ p.bufferSize
  | .insertLong _, p => p.rear + 4 ≤ p.bufferSize
  | .insertChars str, p => 0 ≤ str.len.toInt ∧ p.rear + (2 + str.len.toInt) ≤ p.bufferSize
  | .insertWChars str, p => 0 ≤ str.len.toInt ∧ p.rear + (2 + str.len.toInt) ≤ p.bufferSize
  | .extract t, p => p.front + t.sizeof ≤ p.rear
  | .extractChars, p | .extractWChars, p =>
    0 ≤ p.peekLen.toInt ∧ p.front + (2 + p.peekLen.toInt) ≤ p.rear
  | _, _ => True

variable {p} {q : Packet} {op : Op} {ops : List Op} {size : ℤ}

/-! ## One operation -/

theorem sizeT_of_nonneg (h : 0 ≤ size) (h' : size < 2 ^ 31) : (sizeT size : ℤ) = size := by
  rw [sizeT]
  omega

/-- A negative size is a huge one. -/
theorem sizeT_of_neg (h : size < 0) (h' : -2 ^ 31 ≤ size) : 2 ^ 31 ≤ (sizeT size : ℤ) := by
  rw [sizeT]
  omega

theorem length_wideBytes (s : List UInt16) : (wideBytes s).length = 2 * s.length := by
  induction s with
  | nil => rfl
  | cons c s ih =>
    rw [wideBytes, List.flatMap_cons, List.length_append, length_toBytes, ← wideBytes, ih,
      List.length_cons]
    omega

theorem store_outside {m : ℤ → UInt8} {a x : ℤ} {bytes : List UInt8} {n : ℕ}
    (hn : bytes.length ≤ n) (hx : x < a ∨ a + n ≤ x) : store m a bytes x = m x := by
  rcases hx with hx | hx
  · exact store_of_lt hx
  · exact store_of_ge (by omega)

/-- The bounds of a length as a `short`. -/
theorem short_bounds (len : BitVec 16) : -2 ^ 31 ≤ len.toInt ∧ len.toInt < 2 ^ 31 := by
  have h₁ := len.le_toInt
  have h₂ := len.toInt_lt
  omega

/-- What `PutData` copies, as it fits. -/
theorem putData_bounds (hp : p.InBounds) (src : List UInt8) :
    0 ≤ (p.putData src).1 ∧ p.rear + (p.putData src).1 ≤ p.bufferSize := by
  have := hp.size
  simp only [putData]
  split <;> omega

theorem getData_bounds (hp : p.InBounds) (size : ℤ) (h : 0 ≤ size) :
    0 ≤ (p.getData size).1 ∧ p.front + (p.getData size).1 ≤ p.rear := by
  have := hp.rear
  simp only [getData]
  split <;> omega

theorem insertString_outside {len : BitVec 16} {str : List UInt8} {x : ℤ}
    (h₁ : x < p.rear ∨ p.rear + 2 ≤ x)
    (h₂ : x < p.rear + 2 ∨ p.rear + 2 + sizeT len.toInt ≤ x) :
    (p.insertString len str).buffer x = p.buffer x := by
  simp only [insertString]
  rw [store_outside (List.length_take_le ..) h₂,
    store_outside (n := 2) (by rw [length_toBytes]) (by simpa using h₁)]

theorem putData_outside (hp : p.InBounds) (h31 : p.bufferSize < 2 ^ 31) {src : List UInt8} {x : ℤ}
    (hx : x < p.rear ∨ p.rear + sizeT (p.putData src).1 ≤ x) :
    (p.putData src).2.buffer x = p.buffer x := by
  obtain ⟨h₁, h₂⟩ := putData_bounds hp src
  have hfront := hp.front
  have hrear := hp.rear
  rw [sizeT_of_nonneg h₁ (by omega), ← Int.toNat_of_nonneg h₁] at hx
  exact store_outside (List.length_take_le ..) hx

/-- **What an operation changes in `Buffer` lies in the ranges it writes.** -/
theorem Op.apply_outside (op : Op) (hp : p.InBounds) (h31 : p.bufferSize < 2 ^ 31) {x : ℤ}
    (hx : ∀ r ∈ op.writes p, x < r.1 ∨ r.1 + r.2 ≤ x) : (op.apply p).buffer x = p.buffer x := by
  cases op with
  | insert t value | insertLong value =>
    exact store_outside (length_toBytes ..).le (hx _ (List.mem_singleton_self _))
  | insertChars str | insertWChars str =>
    exact insertString_outside (hx _ (List.mem_cons_self ..))
      (hx _ (List.mem_cons_of_mem _ (List.mem_singleton_self _)))
  | putData src | putDataW src => exact putData_outside hp h31 (hx _ (List.mem_singleton_self _))
  | shiftDataToFront =>
    have h₁ := hp.front
    have h₂ := hp.rear
    have h₃ := hp.size
    refine store_outside ?_ (hx _ (List.mem_singleton_self _))
    rw [length_load, sizeT, getDataSize]
    omega
  | _ => rfl

/-- A string that `<<` writes. -/
theorem insertString_iff (hp : p.InBounds) (h31 : p.bufferSize < 2 ^ 31) (len : BitVec 16)
    (str : List UInt8) :
    ((p.insertString len str).InBounds ∧ Inside 0 p.bufferSize (p.rear, 2) ∧
      Inside 0 p.bufferSize (p.rear + 2, sizeT len.toInt)) ↔
      0 ≤ len.toInt ∧ p.rear + (2 + len.toInt) ≤ p.bufferSize := by
  obtain ⟨hfront, hrear, hsize⟩ := hp
  obtain ⟨h₁, h₂⟩ := short_bounds len
  constructor
  · rintro ⟨⟨-, -, hend⟩, -, hin⟩
    refine ⟨?_, hend⟩
    by_contra hneg
    have := sizeT_of_neg (not_le.1 hneg) h₁
    rcases hin with hin | ⟨-, hin⟩ <;> dsimp only at hin <;> omega
  · rintro ⟨hlen, hend⟩
    have hcount := sizeT_of_nonneg hlen h₂
    refine ⟨⟨hfront, ?_, hend⟩, .inr ⟨?_, ?_⟩, .inr ⟨?_, ?_⟩⟩ <;> dsimp only [insertString] <;> omega

/-- A string that `>>` reads. -/
theorem extractString_iff (hp : p.InBounds) (h31 : p.bufferSize < 2 ^ 31) :
    (p.extractString.2.InBounds ∧ Inside p.front p.rear (p.front, 2) ∧
      Inside p.front p.rear (p.front + 2, sizeT p.peekLen.toInt)) ↔
      0 ≤ p.peekLen.toInt ∧ p.front + (2 + p.peekLen.toInt) ≤ p.rear := by
  obtain ⟨hfront, hrear, hsize⟩ := hp
  obtain ⟨h₁, h₂⟩ := short_bounds p.peekLen
  constructor
  · rintro ⟨⟨-, hend, -⟩, -, hin⟩
    refine ⟨?_, hend⟩
    by_contra hneg
    have := sizeT_of_neg (not_le.1 hneg) h₁
    rcases hin with hin | ⟨-, hin⟩ <;> dsimp only at hin <;> omega
  · rintro ⟨hlen, hend⟩
    have hcount := sizeT_of_nonneg hlen h₂
    refine ⟨⟨?_, hend, hsize⟩, .inr ⟨?_, ?_⟩, .inr ⟨?_, ?_⟩⟩ <;> dsimp only [extractString] <;> omega

theorem forall_mem_pair {α : Type*} {P : α → Prop} {a b : α} :
    (∀ r ∈ [a, b], P r) ↔ P a ∧ P b := by
  simp

/-- **One operation** on a packet whose positions are in order. -/
theorem Op.safe_iff (op : Op) (hp : p.InBounds) (h20 : 20 ≤ p.bufferSize)
    (h31 : p.bufferSize < 2 ^ 31) : op.Safe p ↔ op.Fits p := by
  obtain ⟨hfront, hrear, hsize⟩ := id hp
  have hnil : ∀ {P : ℤ × ℕ → Prop}, ∀ r ∈ ([] : List (ℤ × ℕ)), P r := fun _ h => nomatch h
  cases op with
  | insert t value =>
    refine ⟨fun h => h.inBounds.size, fun h => ⟨⟨hfront, ?_, h⟩, ?_, hnil⟩⟩
    · show p.front ≤ p.rear + t.sizeof
      omega
    · exact List.forall_mem_singleton.2 (.inr ⟨by dsimp only; omega, h⟩)
  | insertLong value =>
    refine ⟨fun h => h.inBounds.size, fun h => ⟨⟨hfront, ?_, h⟩, ?_, hnil⟩⟩
    · show p.front ≤ p.rear + 4
      omega
    · exact List.forall_mem_singleton.2 (.inr ⟨by dsimp only; omega, h⟩)
  | insertChars str =>
    have hiff := insertString_iff hp h31 str.len str.chars
    exact ⟨fun h => hiff.1 ⟨h.inBounds, forall_mem_pair.1 h.writes⟩,
      fun h => ⟨(hiff.2 h).1, forall_mem_pair.2 (hiff.2 h).2, hnil⟩⟩
  | insertWChars str =>
    have hiff := insertString_iff hp h31 str.len (wideBytes str.chars)
    exact ⟨fun h => hiff.1 ⟨h.inBounds, forall_mem_pair.1 h.writes⟩,
      fun h => ⟨(hiff.2 h).1, forall_mem_pair.2 (hiff.2 h).2, hnil⟩⟩
  | extract t =>
    refine ⟨fun h => h.inBounds.rear, fun h => ⟨⟨?_, h, hsize⟩, hnil, ?_⟩⟩
    · show 0 ≤ p.front + t.sizeof
      omega
    · exact List.forall_mem_singleton.2 (.inr ⟨le_rfl, h⟩)
  | extractChars | extractWChars =>
    have hiff := extractString_iff hp h31
    exact ⟨fun h => hiff.1 ⟨h.inBounds, forall_mem_pair.1 h.reads⟩,
      fun h => ⟨(hiff.2 h).1, hnil, forall_mem_pair.2 (hiff.2 h).2⟩⟩
  | putData src | putDataW src =>
    refine iff_of_true ?_ trivial
    obtain ⟨h₁, h₂⟩ := putData_bounds hp _
    have hcount := sizeT_of_nonneg h₁ (by omega)
    exact ⟨⟨hfront, le_add_of_le_of_nonneg hrear h₁, h₂⟩,
      List.forall_mem_singleton.2
        (.inr ⟨by dsimp only; omega, by dsimp only [Packet.putDataW]; omega⟩), hnil⟩
  | getData size =>
    refine iff_of_true ?_ trivial
    obtain ⟨h₁, h₂⟩ := getData_bounds hp size (by omega)
    have hcount := sizeT_of_nonneg h₁ (by omega)
    exact ⟨⟨add_nonneg hfront h₁, h₂, hsize⟩, hnil,
      List.forall_mem_singleton.2 (.inr ⟨le_rfl, by dsimp only; omega⟩)⟩
  | getDataW size =>
    refine iff_of_true ?_ trivial
    obtain ⟨h₁, h₂⟩ := getData_bounds hp (size * 2) (by omega)
    have hcount := sizeT_of_nonneg h₁ (by omega)
    exact ⟨⟨add_nonneg hfront h₁, h₂, hsize⟩, hnil,
      List.forall_mem_singleton.2 (.inr ⟨le_rfl, by dsimp only [Packet.getDataW]; omega⟩)⟩
  | moveWritePos size =>
    refine iff_of_true ⟨⟨hfront, ?_, ?_⟩, hnil, hnil⟩ trivial <;>
      dsimp only [apply, Packet.moveWritePos] <;> split <;> omega
  | moveReadPos size =>
    refine iff_of_true ⟨⟨?_, ?_, hsize⟩, hnil, hnil⟩ trivial <;>
      dsimp only [apply, Packet.moveReadPos] <;> split <;> omega
  | shiftDataToFront =>
    have hcount : (sizeT p.getDataSize : ℤ) = p.getDataSize :=
      sizeT_of_nonneg (sub_nonneg.2 hrear) (by rw [getDataSize]; omega)
    rw [getDataSize] at hcount
    refine iff_of_true ⟨⟨le_rfl, sub_nonneg.2 hrear, ?_⟩, ?_, ?_⟩ trivial
    · show p.rear - p.front ≤ p.bufferSize
      omega
    · exact List.forall_mem_singleton.2 (.inr ⟨le_rfl, by dsimp only [getDataSize]; omega⟩)
    · exact List.forall_mem_singleton.2 (.inr ⟨le_rfl, by dsimp only [getDataSize]; omega⟩)
  | clear =>
    exact iff_of_true ⟨⟨(by decide : (0 : ℤ) ≤ kHeaderDefault), le_rfl, h20⟩, hnil, hnil⟩ trivial

/-! ## Sequences of operations -/

/-- Each operation of a sequence meets the condition where it is called. -/
def Along (P : Op → Packet → Prop) : Packet → List Op → Prop
  | _, [] => True
  | p, op :: ops => P op p ∧ Along P (op.apply p) ops

theorem Op.bufferSize_apply (op : Op) (p : Packet) : (op.apply p).bufferSize = p.bufferSize := by
  cases op <;> rfl

/-- A packet as the constructor or `Clear` leaves it. -/
inductive Fresh : Packet → Prop
  | new (bufferSize : ℤ) (memory : ℤ → UInt8) : Fresh (.new bufferSize memory)
  | clear (p : Packet) : Fresh p.clear

theorem Fresh.inBounds (hp : p.Fresh) (h20 : 20 ≤ p.bufferSize) : p.InBounds := by
  cases hp with
  | new bufferSize memory => exact ⟨le_rfl, le_rfl, (by decide : (0 : ℤ) ≤ 20).trans h20⟩
  | clear p => exact ⟨(by decide : (0 : ℤ) ≤ kHeaderDefault), le_rfl, h20⟩

theorem along_iff (hp : p.InBounds) (h20 : 20 ≤ p.bufferSize) (h31 : p.bufferSize < 2 ^ 31) :
    Along Op.Safe p ops ↔ Along Op.Fits p ops := by
  induction ops generalizing p with
  | nil => rfl
  | cons op ops ih =>
    have hone := op.safe_iff hp h20 h31
    have hrest (h : op.Safe p) := ih h.inBounds (by rwa [op.bufferSize_apply])
      (by rwa [op.bufferSize_apply])
    constructor
    · rintro ⟨hsafe, h⟩
      exact ⟨hone.1 hsafe, (hrest hsafe).1 h⟩
    · rintro ⟨hfits, h⟩
      have hsafe := hone.2 hfits
      exact ⟨hsafe, (hrest hsafe).2 h⟩

/-- **The positions stay in order, and no access leaves the buffer or the data, exactly as long as
each `<<` has room and each `>>` has data**, in every sequence of operations. -/
theorem safe_along_iff (hp : p.Fresh) (h20 : 20 ≤ p.bufferSize) (h31 : p.bufferSize < 2 ^ 31)
    (ops : List Op) : Along Op.Safe p ops ↔ Along Op.Fits p ops :=
  along_iff (hp.inBounds h20) h20 h31

theorem safe_along_iff_sequence :
    let ops : List Op := [.clear, .insert .int 7, .putData [1, 2], .extract .int, .extract .int]
    Along Op.Safe (new 1024 fun _ => 0) ops ↔ Along Op.Fits (new 1024 fun _ => 0) ops :=
  safe_along_iff (.new 1024 _) (by decide) (by decide) _

/-- **`>>` reads on where the data ends**, and `Front` gets ahead of `Rear`. -/
theorem exists_unsafe :
    ¬∀ (p : Packet) (ops : List Op), p.Fresh → 20 ≤ p.bufferSize → p.bufferSize < 2 ^ 31 →
      Along Op.Safe p ops := by
  intro hall
  have h := hall (new 1024 fun _ => 0).clear [.extract .int] (.clear _) (by decide) (by decide)
  exact absurd h.1.inBounds.rear (by decide)

end NetworkLibrary.Packet
