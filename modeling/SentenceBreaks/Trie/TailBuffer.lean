/-! A buffer that is filled from its end toward its start. Lengths are counted from the end, so they
stay valid when the buffer moves to a larger array. -/

namespace SentenceBreaks.Trie

structure TailBuffer where
  cells : Array UInt16
  filled : Nat
  roomy : 0 < cells.size
  fits : filled ≤ cells.size

namespace TailBuffer

def withCapacity (capacity : Nat) : TailBuffer where
  cells := Array.replicate (max capacity 1) 0
  filled := 0
  roomy := by rw [Array.size_replicate]; omega
  fits := by simp

def units (buffer : TailBuffer) : Array UInt16 :=
  buffer.cells.extract (buffer.cells.size - buffer.filled)

/-- The written units, last block first. -/
def contents (buffer : TailBuffer) : List UInt16 :=
  buffer.cells.toList.drop (buffer.cells.size - buffer.filled)

/-- Doubles a capacity until it exceeds a length. -/
def doubled (capacity length : Nat) (roomy : 0 < capacity) : Nat :=
  if capacity ≤ length then doubled (2 * capacity) length (by omega) else capacity
termination_by length + 1 - capacity

theorem lt_doubled (capacity length : Nat) (roomy : 0 < capacity) :
    length < doubled capacity length roomy := by
  fun_induction doubled capacity length roomy with
  | case1 capacity roomy small larger => exact larger
  | case2 capacity roomy large => omega

/-- Makes room for some length of units in all, keeping the written ones at the end. -/
def reserve (length : Nat) (buffer : TailBuffer) : TailBuffer :=
  if enough : length ≤ buffer.cells.size then buffer
  else
    { cells := Array.replicate (doubled buffer.cells.size length buffer.roomy - buffer.filled) 0 ++
        buffer.units
      filled := buffer.filled
      roomy := by
        have larger := lt_doubled buffer.cells.size length buffer.roomy
        have fits := buffer.fits
        simp [units]
        omega
      fits := by
        have larger := lt_doubled buffer.cells.size length buffer.roomy
        have fits := buffer.fits
        simp [units]
        omega }

theorem filled_reserve (length : Nat) (buffer : TailBuffer) :
    (buffer.reserve length).filled = buffer.filled := by
  unfold reserve
  split <;> rfl

theorem le_size_reserve (length : Nat) (buffer : TailBuffer) :
    length ≤ (buffer.reserve length).cells.size := by
  unfold reserve
  split
  · assumption
  · have larger := lt_doubled buffer.cells.size length buffer.roomy
    have fits := buffer.fits
    simp [units]
    omega

def overwrite (cells : Array UInt16) (start : Nat) :
    (block : List UInt16) → start + block.length ≤ cells.size → Array UInt16
  | [], _ => cells
  | unit :: rest, room =>
      overwrite (cells.set start unit (by simp at room; omega)) (start + 1) rest
        (by simp at room ⊢; omega)

theorem size_overwrite (cells : Array UInt16) (start : Nat) (block : List UInt16)
    (room : start + block.length ≤ cells.size) :
    (overwrite cells start block room).size = cells.size := by
  induction block generalizing cells start with
  | nil => rfl
  | cons unit rest same => simp [overwrite, same]

/-- Writes a block in front of what was written before. -/
def write (block : List UInt16) (buffer : TailBuffer) : TailBuffer :=
  let larger := buffer.reserve (buffer.filled + block.length)
  have enough : buffer.filled + block.length ≤ larger.cells.size := le_size_reserve _ buffer
  let start := larger.cells.size - (buffer.filled + block.length)
  have room : start + block.length ≤ larger.cells.size := by omega
  { cells := overwrite larger.cells start block room
    filled := buffer.filled + block.length
    roomy := by rw [size_overwrite]; exact larger.roomy
    fits := by rw [size_overwrite]; exact enough }

@[simp] theorem filled_write (block : List UInt16) (buffer : TailBuffer) :
    (buffer.write block).filled = buffer.filled + block.length := rfl

theorem toList_units (buffer : TailBuffer) : buffer.units.toList = buffer.contents := by
  simp [units, contents, List.take_of_length_le]

end TailBuffer

end SentenceBreaks.Trie
