import SentenceBreaks.Proofs.SegmenterStands

/-! The ends of the text. The cursor can be sent to the last boundary, and the question for it is
answered with yes, whatever the layers are. But a backward move only spares the start of the text:
from beyond the end it passes over the last boundary if an abbreviation stands right before it. -/

namespace SentenceBreaks

theorem Text.cut_zero (text : List Char) : Text.cut text 0 = ([], text) := by
  cases text with
  | nil => rfl
  | cons c rest =>
      have wide : ¬c.utf8Size ≤ 0 := Nat.not_le.2 c.utf8Size_pos
      rw [cut, cut.walk, if_neg wide]

/-- No abbreviation stands before the start of a text. -/
theorem AbbreviationIndex.suppresses_zero (layer : AbbreviationIndex) (text : List Char) :
    layer.suppresses text 0 = false := by
  unfold suppresses suppresses? around
  cases layer.backward with
  | none => rfl
  | some trie =>
      rw [Text.cut_zero]
      rfl

namespace Segmenter

open Boundaries

variable {direction : Direction} {d : Detector} {n : Nat} {layers : List AbbreviationIndex}
  {s : Segmenter}

theorem Rests.refl (s : Segmenter) : Rests s.layers s.detector s := ⟨rfl, rfl, rfl, rfl⟩

theorem current_last (covers : s.detector.Covers) : s.last.current = s.detector.length := by
  have stop : s.detector.boundaries.last.current = Direction.onward.limit s.detector :=
    current_eq_limit covers (offsets_last _) (after_last _)
  exact stop

/-- A backward move spares no boundary for where it is, since the start is not dropped anyway. -/
theorem dropsAny_backward_eq_false_iff : dropsAny .backward layers d n = false ↔
    ∀ layer ∈ layers, layer.suppresses d.text n = false := by
  rw [dropsAny_eq_false_iff, or_iff_right_of_imp]
  rintro rfl layer _
  exact layer.suppresses_zero d.text

/-- In any state the cursor can be sent to the end of the text, which is a boundary. The search back
from beyond it answers the last boundary that no layer suppresses, so it comes to the end unless a
layer suppresses just that. -/
theorem preceding_beyond (s : Segmenter) (covers : s.detector.Covers) :
    s.last.current = s.detector.length ∧ (s.isBoundary s.detector.length).1 = true ∧
      ∀ offset, s.detector.length < offset → ∃ n, (s.preceding offset).1 = some n ∧
        (s.preceding offset).2.current = n ∧
        IsGreatest {n | n ∈ s.detector.boundaries.offsets ∧
          ∀ layer ∈ s.layers, layer.suppresses s.text n = false} n ∧
        (n = s.detector.length ↔
          ∀ layer ∈ s.layers, layer.suppresses s.text s.detector.length = false) := by
  have rests := Rests.refl s
  refine ⟨current_last covers,
    (rests.isBoundary_iff covers).2 ⟨covers.stop, Or.inr (Or.inl rfl)⟩, fun offset beyond => ?_⟩
  have answer : (s.preceding offset).1 = _ :=
    (rests.move_leads (landed_preceding offset _)).landed.answer
  have first := (path_preceding covers.sorted offset).answers
    (dropsAny .backward s.layers s.detector)
  have same : {n | n ∈ s.detector.boundaries.offsets ∧ Direction.backward.Past offset n ∧
      dropsAny .backward s.layers s.detector n = false} =
      {n | n ∈ s.detector.boundaries.offsets ∧
        ∀ layer ∈ s.layers, layer.suppresses s.text n = false} := by
    ext n
    refine and_congr_right fun member => ?_
    rw [dropsAny_backward_eq_false_iff]
    exact and_iff_right (Nat.lt_of_le_of_lt (covers.inside n member) beyond)
  rw [← answer, same] at first
  obtain ⟨n, found, greatest⟩ := first.exists_of_mem
    ⟨covers.start, fun layer _ => layer.suppresses_zero s.text⟩
  refine ⟨n, found, rests.move_stands (landed_preceding offset _) found, greatest, ?_, ?_⟩
  · rintro rfl
    exact greatest.1.2
  · intro clear
    exact Nat.le_antisymm (covers.inside n greatest.1.1) (greatest.2 ⟨covers.stop, clear⟩)

/-- A text that goes on behind the abbreviation. -/
theorem preceding_beyond_clear :
    ∃ s : Segmenter, s.detector.Covers ∧ s.detector.length < 7 ∧ (s.preceding 7).1 = some 6 ∧
      IsGreatest {n | n ∈ s.detector.boundaries.offsets ∧
        ∀ layer ∈ s.layers, layer.suppresses s.text n = false} 6 := by
  let layer : AbbreviationIndex := ⟨some ⟨#[0x32, 46, 114, 77, 0x8002], by decide⟩, none⟩
  let d := Detector.withBoundaries Detector.ends ['M', 'r', '.', ' ', 'X', '.'] [0, 4, 6]
  have opened : d.Opened := .scripted _ _ (by decide) (by decide) (by decide)
  let s : Segmenter := ⟨[layer], d⟩
  obtain ⟨_, _, back⟩ := preceding_beyond s opened.covers
  obtain ⟨n, answer, _, greatest, _⟩ := back 7 (by decide)
  have six : (s.preceding 7).1 = some 6 := by decide
  obtain rfl : n = 6 := Option.some.inj (answer.symm.trans six)
  exact ⟨s, opened.covers, by decide, six, greatest⟩

/-- With an abbreviation at the end of the text, the search from beyond comes to the start. -/
theorem preceding_beyond_dropped :
    ∃ layer d s, Reached [layer] d s ∧ d.length = 7 ∧ s.last.current = 7 ∧
      (s.isBoundary 7).1 = true ∧ (s.preceding 8).1 = some 0 := by
  let layer : AbbreviationIndex := ⟨some ⟨#[0x32, 46, 114, 77, 0x8002], by decide⟩, none⟩
  let d := Detector.withBoundaries Detector.ends ['A', 's', 'k', ' ', 'M', 'r', '.'] [0, 7]
  have reached : Reached [layer] d ⟨[layer], d⟩ :=
    .start (.scripted _ _ (by decide) (by decide) (by decide))
  exact ⟨layer, d, _, reached, by decide, by decide, by decide, by decide⟩

end Segmenter

end SentenceBreaks
