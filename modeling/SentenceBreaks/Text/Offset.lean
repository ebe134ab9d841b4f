/-! Positions in text are byte offsets into its UTF-8 form. An offset inside a character stands for
the start of that character, and one past the end for the end. -/

namespace SentenceBreaks.Text

def byteLength (text : List Char) : Nat := text.foldl (fun length c => length + c.utf8Size) 0

/-- The text before an offset, nearest character first, and the text from it on. -/
def cut (text : List Char) (offset : Nat) : List Char × List Char := walk [] text offset
where
  walk (before : List Char) : List Char → Nat → List Char × List Char
    | [], _ => (before, [])
    | c :: after, room =>
        if c.utf8Size ≤ room then walk (c :: before) after (room - c.utf8Size)
        else (before, c :: after)

theorem foldl_byteLength (text : List Char) (start : Nat) :
    text.foldl (fun length c => length + c.utf8Size) start = start + byteLength text := by
  induction text generalizing start with
  | nil => rfl
  | cons c text later =>
      simp only [byteLength, List.foldl_cons]
      rw [later, later (0 + c.utf8Size)]
      omega

theorem byteLength_cons (c : Char) (text : List Char) :
    byteLength (c :: text) = c.utf8Size + byteLength text := by
  rw [byteLength, List.foldl_cons, foldl_byteLength, Nat.zero_add]

theorem byteLength_append (first second : List Char) :
    byteLength (first ++ second) = byteLength first + byteLength second := by
  induction first with
  | nil => simp [byteLength]
  | cons c first sum => rw [List.cons_append, byteLength_cons, byteLength_cons, sum, Nat.add_assoc]

theorem cut_walk_keeps (before text : List Char) (room : Nat) :
    (cut.walk before text room).1.reverse ++ (cut.walk before text room).2 =
      before.reverse ++ text := by
  induction text generalizing before room with
  | nil => simp [cut.walk]
  | cons c after keeps =>
      unfold cut.walk
      split
      · rw [keeps]
        simp
      · rfl

theorem cut_keeps (text : List Char) (offset : Nat) :
    (cut text offset).1.reverse ++ (cut text offset).2 = text := by
  simpa [cut] using cut_walk_keeps [] text offset

end SentenceBreaks.Text
