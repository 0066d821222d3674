import NetworkLibrary.Foundations.Memory

/-!
# `Packet`

The serialisation buffer: `Buffer` with the positions `Front` and `Rear`. The memory is a function
of the offset from `Buffer[0]`, so that a copy beyond `BufferSize` is a write at such an offset
rather than impossible; `memcpy` copies the source as it was before the call, also where source
and destination overlap. Positions and sizes are `int`s that stay far below `2^31`.
-/

namespace NetworkLibrary

open Foundations

/-- The fields of `Packet`, without its lock. -/
structure Packet where
  refCnt : ℤ
  bufferSize : ℤ
  front : ℤ
  rear : ℤ
  buffer : ℤ → UInt8
  encodeFlag : Bool

namespace Packet

def kBufferDefault : ℤ := 1024

def kHeaderDefault : ℤ := 20

/-- The constructor; `memory` is what `new char[bufferSize]` finds. -/
def new (bufferSize : ℤ) (memory : ℤ → UInt8) : Packet where
  refCnt := 0
  bufferSize := bufferSize
  front := 0
  rear := 0
  buffer := memory
  encodeFlag := false

variable (p : Packet)

def getBufferSize : ℤ := p.bufferSize

def getDataSize : ℤ := p.rear - p.front

def getFreeSize : ℤ := p.getBufferSize - p.getDataSize

/-- `&Buffer[Front]`, as an offset. -/
def getReadBufferPtr : ℤ := p.front

/-- `&Buffer[Rear]`, as an offset. -/
def getWriteBufferPtr : ℤ := p.rear

@[simps] def clear : Packet :=
  { p with front := kHeaderDefault, rear := kHeaderDefault, encodeFlag := false }

def incrementRef : Packet := { p with refCnt := p.refCnt + 1 }

/-- The size moved, and the packet after it. -/
def moveWritePos (size : ℤ) : ℤ × Packet :=
  let size := if p.rear + size > p.bufferSize then p.bufferSize - p.rear else size
  (size, { p with rear := p.rear + size })

def moveReadPos (size : ℤ) : ℤ × Packet :=
  let size := if p.front + size > p.rear then p.rear - p.front else size
  (size, { p with front := p.front + size })

/-- The bytes copied to `dest` are returned with the size. -/
def getData (size : ℤ) : ℤ × List UInt8 × Packet :=
  let size := if p.front + size > p.rear then p.rear - p.front else size
  (size, load p.buffer p.front size.toNat, { p with front := p.front + size })

def putData (src : List UInt8) : ℤ × Packet :=
  let srcSize : ℤ := src.length
  let srcSize := if p.rear + srcSize > p.bufferSize then p.bufferSize - p.rear else srcSize
  (srcSize, { p with buffer := store p.buffer p.rear (src.take srcSize.toNat)
                     rear := p.rear + srcSize })

def shiftDataToFront : Packet :=
  { p with buffer := store p.buffer 0 (load p.buffer p.front p.getDataSize.toNat)
           front := 0
           rear := p.getDataSize }

/-- Others write into the buffer, as `WSARecv` and `GetData` do through a raw pointer. -/
def fill (bytes : List UInt8) (ptr : ℤ) : Packet := { p with buffer := store p.buffer ptr bytes }

/-- The data of a packet. -/
def data : List UInt8 := load p.buffer p.front p.getDataSize.toNat

/-! ## Positions in order -/

/-- The positions are in order and inside the buffer. -/
structure InBounds : Prop where
  front : 0 ≤ p.front
  rear : p.front ≤ p.rear
  size : p.rear ≤ p.bufferSize

variable {p} {bytes : List UInt8}

theorem length_data (h : p.InBounds) : (p.data.length : ℤ) = p.getDataSize := by
  rw [data, length_load, getDataSize, Int.toNat_of_nonneg]
  exact sub_nonneg.2 h.rear

theorem moveReadPos_of_le (size : ℤ) (h : p.front + size ≤ p.rear) :
    p.moveReadPos size = (size, { p with front := p.front + size }) := by
  rw [moveReadPos, if_neg (by omega)]

theorem moveWritePos_of_le (size : ℤ) (h : p.rear + size ≤ p.bufferSize) :
    p.moveWritePos size = (size, { p with rear := p.rear + size }) := by
  rw [moveWritePos, if_neg (by omega)]

theorem getData_of_le (size : ℤ) (h : p.front + size ≤ p.rear) :
    p.getData size =
      (size, load p.buffer p.front size.toNat, { p with front := p.front + size }) := by
  rw [getData, if_neg (by omega)]

theorem putData_of_le (h : p.rear + bytes.length ≤ p.bufferSize) :
    p.putData bytes = ((bytes.length : ℤ), { p with buffer := store p.buffer p.rear bytes
                                                    rear := p.rear + bytes.length }) := by
  simp only [putData]
  rw [if_neg (by omega), Int.toNat_natCast, List.take_length]

/-- Bytes written behind `Rear` are behind the data once `Rear` has moved. -/
theorem data_fill (bytes : List UInt8) (h : p.front ≤ p.rear) :
    ({ p.fill bytes p.rear with rear := p.rear + bytes.length } : Packet).data =
      p.data ++ bytes := by
  have hsize : (p.rear + bytes.length - p.front).toNat = p.getDataSize.toNat + bytes.length := by
    unfold getDataSize
    omega
  have hrear : p.rear = p.front + p.getDataSize.toNat := by
    unfold getDataSize
    omega
  rw [data, getDataSize, fill, hsize, hrear]
  exact load_store_append p.buffer p.front p.getDataSize.toNat bytes

theorem data_shiftDataToFront : p.shiftDataToFront.data = p.data := by
  have := load_store_self p.buffer 0 p.data
  rw [data, length_load] at this
  rw [data, getDataSize, shiftDataToFront, sub_zero]
  exact this

theorem data_clear : p.clear.data = [] := by
  simp [data, getDataSize]

/-- Dropping data from the front. -/
theorem data_front {k : ℕ} (h : p.front + k ≤ p.rear) :
    ({ p with front := p.front + k } : Packet).data = p.data.drop k := by
  have hk : k ≤ p.getDataSize.toNat := by
    unfold getDataSize
    omega
  have hsize : (p.rear - (p.front + k)).toNat = p.getDataSize.toNat - k := by
    unfold getDataSize
    omega
  rw [data, data, drop_load hk, getDataSize, hsize]

end Packet

end NetworkLibrary
