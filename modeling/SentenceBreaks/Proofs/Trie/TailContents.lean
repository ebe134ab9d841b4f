import SentenceBreaks.Trie.TailBuffer

/-! What a tail buffer holds. Writing puts a block in front of the contents and changes nothing
else, whether or not the units move to a larger array. -/

namespace SentenceBreaks.Trie.TailBuffer

theorem length_contents (buffer : TailBuffer) : buffer.contents.length = buffer.filled := by
  have fits := buffer.fits
  unfold contents
  rw [List.length_drop, Array.length_toList]
  omega

theorem contents_reserve (length : Nat) (buffer : TailBuffer) :
    (buffer.reserve length).contents = buffer.contents := by
  unfold reserve
  split
  · rfl
  · have larger := lt_doubled buffer.cells.size length buffer.roomy
    have fits := buffer.fits
    have held : (buffer.cells.extract (buffer.cells.size - buffer.filled)).size =
        buffer.filled := by
      rw [Array.size_extract]
      omega
    rw [← toList_units buffer, contents]
    simp only [units, Array.size_append, Array.size_replicate, Array.toList_append,
      Array.toList_replicate, held, Nat.add_sub_cancel]
    rw [List.drop_left' (by simp)]

/-- Overwriting from a position on replaces as many cells as the block has units. -/
theorem toList_overwrite (cells : Array UInt16) (start : Nat) (block : List UInt16)
    (room : start + block.length ≤ cells.size) :
    (overwrite cells start block room).toList =
      cells.toList.take start ++ block ++ cells.toList.drop (start + block.length) := by
  induction block generalizing cells start with
  | nil => simp [overwrite]
  | cons unit rest ih =>
      simp only [List.length_cons] at room
      have inside : start < cells.toList.length := by
        simp only [Array.length_toList]
        omega
      rw [overwrite, ih, Array.toList_set, List.take_add_one, List.take_set_of_le (Nat.le_refl _),
        List.getElem?_set_self inside, List.drop_set_of_lt (by omega)]
      simp only [Option.toList_some, List.append_assoc, List.length_cons, List.cons_append,
        List.nil_append]
      rw [Nat.add_right_comm, Nat.add_assoc]

@[simp] theorem contents_write (block : List UInt16) (buffer : TailBuffer) :
    (buffer.write block).contents = block ++ buffer.contents := by
  have enough := le_size_reserve (buffer.filled + block.length) buffer
  have same := contents_reserve (buffer.filled + block.length) buffer
  have still := filled_reserve (buffer.filled + block.length) buffer
  rw [← same]
  unfold write contents
  dsimp only
  rw [toList_overwrite, size_overwrite, List.append_assoc, List.drop_left', still]
  · congr 2
    omega
  · simp only [List.length_take, Array.length_toList]
    omega

@[simp] theorem filled_withCapacity (capacity : Nat) : (withCapacity capacity).filled = 0 := rfl

@[simp] theorem contents_withCapacity (capacity : Nat) : (withCapacity capacity).contents = [] := by
  rw [← List.length_eq_zero_iff, length_contents, filled_withCapacity]

end SentenceBreaks.Trie.TailBuffer
