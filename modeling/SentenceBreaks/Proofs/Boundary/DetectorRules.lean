import SentenceBreaks.Boundary.Detector
import SentenceBreaks.Proofs.Boundary.CursorMoves

/-! The boundaries that a detector starts from. Under the terminator rule, and under the rule that
takes a text as one piece, they are ascending, include the start and the end of the text, and none
is beyond the end. -/

namespace SentenceBreaks

open Text

namespace Terminator

/-- What a block takes in and what is left of the text behind it make up the text. -/
theorem block_keeps (terminators : List Char) (c : Char) (rest : List Char) :
    let afterBlock := rest.dropWhile terminators.contains
    let afterClosers := afterBlock.dropWhile isCloser
    c :: rest.takeWhile terminators.contains ++ afterBlock.takeWhile isCloser ++
      afterClosers.takeWhile isBlank ++ afterClosers.dropWhile isBlank = c :: rest := by
  dsimp only
  rw [List.append_assoc, List.takeWhile_append_dropWhile, List.append_assoc,
    List.takeWhile_append_dropWhile, List.cons_append, List.takeWhile_append_dropWhile]

/-- No break is beyond the end of the text. -/
theorem breaks_le (terminators : List Char) (before : Option Char) (offset : Nat)
    (text : List Char) {n : Nat} (member : n ∈ breaks terminators before offset text) :
    n ≤ offset + byteLength text := by
  fun_induction breaks terminators before offset text with
  | case1 => contradiction
  | case2 before offset c rest _ _ _ _ ih =>
      rw [byteLength_cons, ← Nat.add_assoc]
      exact ih member
  | case3 before offset c rest _ block afterBlock _ closers afterClosers blanks after passed here _
      ih =>
      rw [← block_keeps terminators c rest, byteLength_append, ← Nat.add_assoc]
      exact ih member
  | case4 before offset c rest _ block afterBlock _ closers afterClosers blanks after passed here _
      ih =>
      rw [← block_keeps terminators c rest, byteLength_append, ← Nat.add_assoc]
      rcases List.mem_cons.1 member with rfl | later
      · exact Nat.le_add_right _ _
      · exact ih later
  | case5 before offset c rest _ ih =>
      rw [byteLength_cons, ← Nat.add_assoc]
      exact ih member

end Terminator

namespace Detector

variable {d : Detector} {text : List Char} {offsets : List Nat}

/-- The boundaries of a detector are ascending, from the start of the text to its end. -/
structure Covers (d : Detector) : Prop where
  sorted : d.boundaries.offsets.Pairwise (· < ·)
  start : 0 ∈ d.boundaries.offsets
  stop : d.length ∈ d.boundaries.offsets
  inside : ∀ n ∈ d.boundaries.offsets, n ≤ d.length

theorem covers_withBoundaries (rule : List Char → List Nat) (start : 0 ∈ offsets)
    (stop : byteLength text ∈ offsets) (inside : ∀ n ∈ offsets, n ≤ byteLength text) :
    (withBoundaries rule text offsets).Covers := by
  have same : (withBoundaries rule text offsets).boundaries.offsets =
      Boundaries.sortedDistinct offsets :=
    Boundaries.offsets_ofOffsets (List.ne_nil_of_mem start)
  constructor
  · rw [same]
    exact Boundaries.sorted_sortedDistinct offsets
  · rw [same]
    exact Boundaries.mem_sortedDistinct.2 start
  · rw [same]
    exact Boundaries.mem_sortedDistinct.2 stop
  · intro n member
    rw [same, Boundaries.mem_sortedDistinct] at member
    exact inside n member

/-- A terminator detector, or one with given boundaries that has later texts in one piece. -/
inductive Opened : Detector → Prop
  | terminator (text terminators : List Char) : Opened (.terminator text terminators)
  | scripted (text : List Char) (offsets : List Nat) (start : 0 ∈ offsets)
      (stop : byteLength text ∈ offsets) (inside : ∀ n ∈ offsets, n ≤ byteLength text) :
      Opened (.withBoundaries ends text offsets)

theorem Opened.covers (opened : Opened d) : d.Covers := by
  cases opened with
  | terminator text terminators =>
      apply covers_withBoundaries
      · exact List.mem_cons_self
      · exact List.mem_append_right _ List.mem_cons_self
      · intro n member
        rcases List.mem_append.1 member with early | last
        · rcases List.mem_cons.1 early with rfl | inner
          · exact Nat.zero_le _
          · have bound := Terminator.breaks_le terminators none 0 text inner
            rwa [Nat.zero_add] at bound
        · obtain rfl := List.mem_singleton.1 last
          exact Nat.le_refl _
  | scripted text offsets start stop inside =>
      exact covers_withBoundaries ends start stop inside

theorem Opened.setText (opened : Opened d) (text : List Char) : Opened (d.setText text) := by
  cases opened with
  | terminator _ terminators => exact .terminator text terminators
  | scripted =>
      refine .scripted text (ends text) ?_ ?_ ?_
      · exact List.mem_cons_self
      · exact List.mem_cons_of_mem _ List.mem_cons_self
      · intro n member
        simp only [ends, List.mem_cons, List.not_mem_nil, or_false] at member
        rcases member with rfl | rfl
        · exact Nat.zero_le _
        · exact Nat.le_refl _

end Detector

end SentenceBreaks
