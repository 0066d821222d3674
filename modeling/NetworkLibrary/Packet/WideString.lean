import NetworkLibrary.Packet.Operators

/-!
# Strings read back

`>>` on a string copies as many bytes as the length in the packet says, and then writes a NUL at
the index that this length is. The length counts bytes. For a `char*` the index is the end of the
string (`extractChars_restores`); for a `WCHAR*` it lies as far behind the end again, so that the
string is not terminated and memory behind the array is written (`extractWChars_restores_iff`).
-/

namespace NetworkLibrary.Packet

open Foundations

variable (p : Packet)

/-! ## The destination -/

/-- What `>>` on a string leaves in an array of characters of `width` bytes each; `dest` is the
memory from the address of the array on. -/
def extractTo (width : ℕ) (dest : ℤ → UInt8) : ℤ → UInt8 :=
  store (store dest 0 p.extractString.1) (width * p.peekLen.toInt) (List.replicate width 0)

/-- The ranges of the destination that `>>` writes: `memcpy`, and `str[*len] = 0`. -/
def writesTo (width : ℕ) : List (ℤ × ℕ) :=
  [(0, sizeT p.peekLen.toInt), (width * p.peekLen.toInt, width)]

/-- `operator>>(char*)`, as what it leaves in the array. -/
def extractChars (dest : ℤ → UInt8) : ℤ → UInt8 := p.extractTo 1 dest

/-- `operator>>(WCHAR*)`, as what it leaves in the array. -/
def extractWChars (dest : ℤ → UInt8) : ℤ → UInt8 := p.extractTo 2 dest

/-- `>>` leaves the string with its NUL in the array, writes nothing behind it, and takes the string
off the packet; `bytes` is the string in memory, and `array` what the array holds then. -/
structure Restores (width : ℕ) (bytes : List UInt8) (array : ℤ → UInt8) : Prop where
  text : load array 0 (bytes.length + width) = bytes ++ List.replicate width 0
  writes : ∀ w ∈ p.writesTo width, Inside 0 ((bytes.length + width : ℕ) : ℤ) w
  front : p.extractString.2.front = p.front + (2 + bytes.length)

variable {p} {r : Packet} {width : ℕ} {bytes : List UInt8}

/-- The string at the front of a packet is read back if a character is a byte, or there is none. -/
theorem restores_iff (hlen : p.peekLen.toInt = bytes.length)
    (htext : load p.buffer (p.front + 2) bytes.length = bytes) (hwidth : 0 < width)
    (dest : ℤ → UInt8) :
    p.Restores width bytes (p.extractTo width dest) ↔ width = 1 ∨ bytes = [] := by
  have hlt := p.peekLen.toInt_lt
  have hsize : sizeT p.peekLen.toInt = bytes.length := by
    rw [sizeT]
    omega
  have hfront : p.extractString.2.front = p.front + (2 + bytes.length) := by
    rw [extractString, hlen]
  constructor
  · rintro ⟨-, hwrites, -⟩
    have hnul := hwrites _ (List.mem_cons_of_mem _ (List.mem_singleton_self _))
    rw [hlen] at hnul
    rcases hnul with hw | ⟨-, hle⟩
    · exact absurd hw hwidth.ne'
    · -- the index of the NUL is no greater than the number of bytes
      have hmul : width * bytes.length ≤ bytes.length := by
        zify
        push_cast at hle
        linarith
      rcases Nat.eq_zero_or_pos bytes.length with h0 | hpos
      · exact .inr (List.eq_nil_of_length_eq_zero h0)
      · exact .inl (le_antisymm (Nat.le_of_mul_le_mul_right (by rwa [one_mul]) hpos) hwidth)
  · intro h
    have hindex : width * p.peekLen.toInt = bytes.length := by
      rcases h with rfl | rfl
      · rw [hlen, Nat.cast_one, one_mul]
      · rw [hlen, List.length_nil, Nat.cast_zero, mul_zero]
    refine ⟨?_, fun w hw => ?_, hfront⟩
    · have hcopy : p.extractString.1 = bytes := by rw [extractString, hsize, htext]
      have hload := load_store_append (store dest 0 bytes) 0 bytes.length (List.replicate width 0)
      rw [load_store_self, List.length_replicate, zero_add] at hload
      rw [extractTo, hindex, hcopy, hload]
    · rw [writesTo, hindex, hsize] at hw
      rcases List.mem_pair.1 hw with rfl | rfl
      · exact .inr ⟨le_rfl, by push_cast; omega⟩
      · exact .inr ⟨Int.natCast_nonneg _, by push_cast; omega⟩

/-! ## The string in the packet -/

/-- The string is in the packet where `<<` has put it, and the reads have come to it. -/
structure Reached (p r : Packet) (len : BitVec 16) (bytes : List UInt8) : Prop where
  front : r.front = p.rear
  keeps : ∀ x, p.rear ≤ x → x < p.rear + (2 + bytes.length) →
    r.buffer x = (p.insertString len bytes).buffer x

theorem Reached.load {len : BitVec 16} (h : Reached p r len bytes)
    (hlen : len.toInt = bytes.length) :
    r.peekLen.toInt = bytes.length ∧ load r.buffer (r.front + 2) bytes.length = bytes := by
  have hlt := len.toInt_lt
  have hsize : sizeT len.toInt = bytes.length := by
    rw [sizeT]
    omega
  set m := store p.buffer p.rear (toBytes 2 len) with hm
  have hbuf : (p.insertString len bytes).buffer = store m (p.rear + 2) bytes := by
    rw [insertString, hsize, List.take_length]
  have hkeep : Foundations.load r.buffer p.rear (2 + bytes.length) =
      Foundations.load (store m (p.rear + 2) bytes) p.rear (2 + bytes.length) :=
    load_congr fun x hx hx' => by rw [h.keeps x hx (by push_cast at hx'; omega), hbuf]
  have hhead : Foundations.load m p.rear 2 = toBytes 2 len := by
    have := load_store_self p.buffer p.rear (toBytes 2 len)
    rwa [length_toBytes] at this
  have hwhole := load_store_append m p.rear 2 bytes
  rw [Nat.cast_ofNat, hhead, ← hkeep, load_add, Nat.cast_ofNat] at hwhole
  obtain ⟨h₁, h₂⟩ := List.append_inj hwhole (by rw [length_load, length_toBytes])
  refine ⟨?_, by rw [h.front, h₂]⟩
  rw [peekLen, h.front, h₁, ofBytes_toBytes, hlen]

/-- **A `char` string of at most 32767 characters is read back.** -/
theorem extractChars_restores {str : CString} (hlen : str.chars.length ≤ 32767)
    (h : Reached p r str.len str.chars) (dest : ℤ → UInt8) :
    r.Restores 1 str.chars (r.extractChars dest) := by
  have hint : str.len.toInt = str.chars.length := by
    rw [CString.len, BitVec.toInt_ofNat', Int.bmod_def]
    omega
  obtain ⟨h₁, h₂⟩ := h.load hint
  exact (restores_iff h₁ h₂ one_pos dest).2 (.inl rfl)

theorem WString.len_toInt {str : WString} (h : str.chars.length ≤ 16383) :
    str.len.toInt = 2 * str.chars.length := by
  have hmul : str.len = BitVec.ofNat 16 (str.chars.length * 2) := by
    rw [WString.len, BitVec.ofNat_mul]
    rfl
  rw [hmul, BitVec.toInt_ofNat', Int.bmod_def]
  omega

/-- **A wide string of at most 16383 characters is read back exactly when it is empty.** -/
theorem extractWChars_restores_iff {str : WString} (hlen : str.chars.length ≤ 16383)
    (h : Reached p r str.len (wideBytes str.chars)) (dest : ℤ → UInt8) :
    r.Restores 2 (wideBytes str.chars) (r.extractWChars dest) ↔ str.chars = [] := by
  have hbytes := length_wideBytes str.chars
  obtain ⟨h₁, h₂⟩ := h.load (by rw [WString.len_toInt hlen, hbytes]; push_cast; rfl)
  rw [extractWChars, restores_iff h₁ h₂ two_pos dest, ← List.length_eq_zero_iff, hbytes]
  simp

/-- `L"a"`. -/
def WString.a : WString := ⟨[97], by decide⟩

/-- The packet has been written to and is read from its start. -/
theorem Reached.of_front {str : WString} (h : p.front = p.rear) :
    Reached p (p.insertWChars str) str.len (wideBytes str.chars) := ⟨h, fun _ _ _ => rfl⟩

/-- The packet with `L"a"` in it. -/
def withA : Packet := (new 1024 fun _ => 0).insertWChars .a

theorem extractWChars_restores_iff_a :
    withA.Restores 2 (wideBytes WString.a.chars) (withA.extractWChars fun _ => 1) ↔
      WString.a.chars = [] :=
  extractWChars_restores_iff (by decide) (.of_front rfl) _

/-- **The NUL of `L"a"` is written at index 2**, one behind its place. -/
theorem exists_not_extractWChars_restores :
    ¬∀ (p r : Packet) (str : WString) (dest : ℤ → UInt8), p.InBounds →
      str.chars.length ≤ 16383 → p.rear + (2 + 2 * str.chars.length) ≤ p.bufferSize →
      Reached p r str.len (wideBytes str.chars) →
        r.Restores 2 (wideBytes str.chars) (r.extractWChars dest) := by
  intro hall
  have h := hall (new 1024 fun _ => 0) _ .a (fun _ => 1) (Fresh.inBounds (.new ..) (by decide))
    (by decide) (by decide) (.of_front rfl)
  have hnul := h.writes (4, 2) (List.mem_cons_of_mem _ (List.mem_singleton.2 (by decide)))
  rcases hnul with hw | ⟨-, hle⟩
  · exact absurd hw (by decide)
  · exact absurd hle (by decide)

end NetworkLibrary.Packet
