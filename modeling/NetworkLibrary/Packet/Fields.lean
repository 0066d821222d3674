import NetworkLibrary.Packet.Serialize

/-!
# Field by field

A handler reads the fields of a message off the front of a packet (`Holds.extract`, `Holds.getData`)
and writes those of the answer behind its header reserve (`Written.insert`, `Written.putData`). A
packet of the pool has room for 1004 bytes there; `PutData` writes what fits.
-/

namespace NetworkLibrary.Packet

open Foundations

/-- The data of the packet that have not been read. -/
structure Holds (p : Packet) (bytes : List UInt8) : Prop where
  inBounds : p.InBounds
  data : p.data = bytes

/-- What has been written into a packet of the default size since it was cleared. -/
structure Written (p : Packet) (bytes : List UInt8) : Prop where
  front : p.front = 20
  rear : p.rear = 20 + bytes.length
  bufferSize : p.bufferSize = 1024
  encodeFlag : p.encodeFlag = false
  length : bytes.length ≤ 1004
  data : p.data = bytes

variable {p : Packet} {bytes tail : List UInt8} {t : Scalar} {value : BitVec (8 * t.sizeof)}

/-! ## Reading -/

theorem Holds.extract (h : p.Holds (toBytes t.sizeof value ++ tail)) :
    (p.extract t).1 = value ∧ (p.extract t).2.Holds tail := by
  obtain ⟨hle, hload, hdata⟩ := load_front h.inBounds h.data
  rw [length_toBytes] at hle hload hdata
  refine ⟨?_, ⟨?_, hle, h.inBounds.size⟩, hdata⟩
  · rw [Packet.extract, hload]
    exact ofBytes_toBytes _ value
  · exact add_nonneg h.inBounds.front (Int.natCast_nonneg _)

theorem Holds.getData (h : p.Holds (bytes ++ tail)) :
    (p.getData bytes.length).1 = bytes.length ∧ (p.getData bytes.length).2.1 = bytes ∧
      (p.getData bytes.length).2.2.Holds tail := by
  obtain ⟨hle, hload, hdata⟩ := load_front h.inBounds h.data
  rw [getData_of_le _ hle]
  refine ⟨rfl, ?_, ⟨?_, hle, h.inBounds.size⟩, hdata⟩
  · rw [Int.toNat_natCast]
    exact hload
  · exact add_nonneg h.inBounds.front (Int.natCast_nonneg _)

/-- Of what is there, no more is read than that. -/
theorem Holds.getData_take (h : p.Holds bytes) (n : ℕ) :
    (p.getData n).1 = (min n bytes.length : ℕ) ∧ (p.getData n).2.1 = bytes.take n := by
  have hlen := length_data h.inBounds
  have hdata : load p.buffer p.front bytes.length = bytes := by
    have hdata := h.data
    rwa [Packet.data, ← hlen, h.data, Int.toNat_natCast] at hdata
  rw [h.data, getDataSize] at hlen
  rw [Packet.getData]
  rcases le_total n bytes.length with hn | hn
  · rw [if_neg (by omega), Nat.min_eq_left hn, Int.toNat_natCast]
    exact ⟨rfl, by rw [← take_load hn, hdata]⟩
  · have hsize : (if p.front + (n : ℤ) > p.rear then p.rear - p.front else (n : ℤ)) =
        bytes.length := by
      split <;> omega
    rw [hsize, Nat.min_eq_right hn, Int.toNat_natCast, hdata, List.take_of_length_le hn]
    exact ⟨rfl, rfl⟩

/-! ## Writing -/

theorem written_clear (h : p.bufferSize = 1024) : p.clear.Written [] where
  front := rfl
  rear := rfl
  bufferSize := h
  encodeFlag := rfl
  length := by decide
  data := data_clear

theorem Written.inBounds (h : p.Written bytes) : p.InBounds := by
  have hfront := h.front
  have hrear := h.rear
  have hsize := h.bufferSize
  have hlen := h.length
  exact ⟨by omega, by omega, by omega⟩

theorem Written.append (h : p.Written bytes) (hfit : bytes.length + tail.length ≤ 1004) :
    (p.append tail).Written (bytes ++ tail) where
  front := h.front
  rear := by
    show p.rear + tail.length = _
    rw [h.rear, List.length_append]
    omega
  bufferSize := h.bufferSize
  encodeFlag := h.encodeFlag
  length := by rwa [List.length_append]
  data := by rw [data_append h.inBounds, h.data]

theorem Written.insert (h : p.Written bytes) (value : BitVec (8 * t.sizeof))
    (hfit : bytes.length + t.sizeof ≤ 1004) :
    (p.insert t value).Written (bytes ++ toBytes t.sizeof value) := by
  have heq : p.insert t value = p.append (toBytes t.sizeof value) := by
    simp only [Packet.insert, insertBytes, Packet.append, length_toBytes]
    rfl
  rw [heq]
  exact h.append (by rwa [length_toBytes])

/-- **`PutData` writes as much as fits.** -/
theorem Written.putData (h : p.Written bytes) (src : List UInt8) :
    (p.putData src).2.Written ((bytes ++ src).take 1004) := by
  have hrear := h.rear
  have hsize := h.bufferSize
  have hlen := h.length
  have htake : (bytes ++ src).take 1004 = bytes ++ src.take (1004 - bytes.length) := by
    rw [List.take_append, List.take_of_length_le hlen]
  rw [htake]
  rcases Nat.lt_or_ge (1004 - bytes.length) src.length with hlong | hshort
  · have hcut : (src.take (1004 - bytes.length)).length = 1004 - bytes.length := by
      rw [List.length_take]
      omega
    have heq : (p.putData src).2 = p.append (src.take (1004 - bytes.length)) := by
      have hfree : (p.bufferSize - p.rear).toNat = 1004 - bytes.length := by omega
      simp only [Packet.putData, Packet.append, fill]
      rw [if_pos (by omega), hfree, hcut]
      simp only [Packet.mk.injEq, true_and, and_true]
      omega
    rw [heq]
    exact h.append (by rw [hcut]; omega)
  · rw [List.take_of_length_le hshort]
    have heq : (p.putData src).2 = p.append src := congrArg Prod.snd (putData_of_le (by omega))
    rw [heq]
    exact h.append (by omega)

theorem Written.putData_of_le (h : p.Written bytes) (src : List UInt8)
    (hfit : bytes.length + src.length ≤ 1004) : (p.putData src).2.Written (bytes ++ src) := by
  have hput := h.putData src
  rwa [List.take_of_length_le (by rwa [List.length_append])] at hput

end NetworkLibrary.Packet
