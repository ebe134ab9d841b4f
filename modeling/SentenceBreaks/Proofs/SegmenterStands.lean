import SentenceBreaks.Proofs.SegmenterCalls

/-! Where the cursor of a segmenter stands. It always stands on a boundary of the detector. A move
leaves it on one that every layer keeps, also when there is nothing to answer, since then it is at
an end of the text. Only the question for an offset can lead to a boundary that some layer drops:
it takes the cursor to the next boundary of the detector, whatever the layers say about that one. -/

namespace SentenceBreaks

namespace Segmenter

open Boundaries

variable {direction : Direction} {path : List Nat} {d : Detector} {n : Nat} {b : Boundaries}
  {layers : List AbbreviationIndex} {s : Segmenter} {start : Boundaries → Option Nat × Boundaries}

theorem mem_kept_of_stays (member : n ∈ d.boundaries.offsets)
    (stays : dropsAny direction layers d n = false) : n ∈ kept layers d := by
  refine ⟨member, ?_⟩
  rcases dropsAny_eq_false_iff.1 stays with edge | clear
  · cases direction with
    | onward => exact Or.inr (Or.inl edge)
    | backward => exact Or.inl edge
  · exact Or.inr (Or.inr clear)

/-- With nothing ahead of it, a cursor is where its direction ends. -/
theorem current_eq_limit (covers : d.Covers) (same : b.offsets = d.boundaries.offsets)
    (nothing : direction.ahead b = []) : b.current = direction.limit d := by
  have sorted := covers.sorted
  rw [← same] at sorted
  have along : direction.Path b.current b.offsets _ := path_ahead sorted
  rw [nothing, same] at along
  have none_past : ∀ n ∈ d.boundaries.offsets, ¬ direction.Past b.current n :=
    fun n member past => List.not_mem_nil ((along.mem n).2 ⟨member, past⟩)
  cases direction with
  | onward =>
      have upper := covers.inside b.current (same ▸ current_mem b)
      exact Nat.le_antisymm upper (Nat.not_lt.1 (none_past _ covers.stop))
  | backward => exact Nat.eq_zero_of_not_pos (none_past 0 covers.start)

theorem mem_kept_of_nothing (direction : Direction) (covers : d.Covers)
    (same : b.offsets = d.boundaries.offsets) (nothing : direction.ahead b = []) :
    b.current ∈ kept layers d :=
  mem_kept_of_stays (same ▸ current_mem b)
    (dropsAny_eq_false_iff.2 (Or.inl (current_eq_limit covers same nothing)))

theorem mem_kept_of_opened (opened : d.Opened) : d.current ∈ kept layers d := by
  refine mem_kept_of_nothing .backward opened.covers rfl ?_
  cases opened with
  | terminator => exact before_ofOffsets _
  | scripted => exact before_ofOffsets _

/-- Wherever a move leads, no layer drops the boundary on which it leaves the cursor. -/
theorem Rests.move_kept (rests : Rests layers d s) (covers : d.Covers)
    (landed : Landed direction path s.detector.boundaries.offsets (start s.detector.boundaries)) :
    (s.move direction start).2.current ∈ kept layers d := by
  have further := (rests.move_leads landed).landed
  have stays := List.head?_dropWhile_not (dropsAny direction layers d) path
  cases rest : path.dropWhile (dropsAny direction layers d) with
  | nil =>
      rw [rest] at further
      exact mem_kept_of_nothing direction covers further.same further.onward
  | cons n rest =>
      rw [rest] at further stays
      have stands : (s.move direction start).2.current = n := further.stands n rfl
      rw [stands]
      refine mem_kept_of_stays ?_ stays
      rw [← stands, ← further.same]
      exact current_mem _

/-- The question for an offset leads to a kept boundary, unless the next one is not kept. -/
theorem Rests.isBoundary_kept_iff (rests : Rests layers d s) (covers : d.Covers) (offset : Nat) :
    (s.isBoundary offset).2.current ∈ kept layers d ↔
      ∀ n, IsLeast {n | n ∈ d.boundaries.offsets ∧ offset ≤ n} n → n ∈ kept layers d := by
  have sorted := covers.sorted
  have same : (s.isBoundary offset).2.current =
      (s.detector.boundaries.isBoundary offset).2.current := by
    rw [Segmenter.isBoundary, keeps_eq]
    rfl
  rw [← rests.offsets] at sorted
  rw [same, ← rests.offsets]
  rcases isBoundary_stands sorted offset with ⟨beyond, last⟩ | least
  · refine iff_of_true ?_ fun n least => ?_
    · rw [last]
      exact mem_kept_of_nothing .onward covers ((offsets_last _).trans rests.offsets)
        (after_last _)
    · exact absurd least.1.2 (Nat.not_le.2 (beyond n least.1.1))
  · exact ⟨fun member n other => other.unique least ▸ member, fun all => all _ least⟩

/-- The cursor stands on a boundary of the detector at first and after every call, and at first on
one that every layer keeps. A call leaves it on such a boundary unless it is the question for an
offset, and the next boundary of the detector from there is one that some layer drops. -/
theorem stands_of_reached (layers : List AbbreviationIndex) :
    (∀ d : Detector, d.Opened → (⟨layers, d⟩ : Segmenter).current ∈ kept layers d) ∧
      ∀ (d : Detector) (s : Segmenter), Reached layers d s →
        s.current ∈ d.boundaries.offsets ∧
          ∀ call : Call, (call.run s).2.current ∈ kept layers (call.detector d) ↔
            ∀ offset, call = .isBoundary offset →
              ∀ n, IsLeast {n | n ∈ d.boundaries.offsets ∧ offset ≤ n} n → n ∈ kept layers d := by
  refine ⟨fun d opened => mem_kept_of_opened opened, fun d s reached => ?_⟩
  have rests := reached.rests
  have covers := reached.opened.covers
  refine ⟨rests.offsets ▸ current_mem _, fun call => ?_⟩
  cases call with
  | first =>
      refine iff_of_true ?_ nofun
      exact mem_kept_of_nothing .backward covers ((offsets_first _).trans rests.offsets)
        (before_first _)
  | last =>
      refine iff_of_true ?_ nofun
      exact mem_kept_of_nothing .onward covers ((offsets_last _).trans rests.offsets) (after_last _)
  | next => exact iff_of_true (rests.move_kept covers (landed_step .onward _)) nofun
  | previous => exact iff_of_true (rests.move_kept covers (landed_step .backward _)) nofun
  | nextBy count =>
      obtain ⟨path, landed⟩ := landed_nextBy count s.detector.boundaries
      exact iff_of_true (rests.move_kept covers landed) nofun
  | following offset => exact iff_of_true (rests.move_kept covers (landed_following offset _)) nofun
  | preceding offset => exact iff_of_true (rests.move_kept covers (landed_preceding offset _)) nofun
  | isBoundary offset =>
      refine (rests.isBoundary_kept_iff covers offset).trans ⟨?_, fun all => all offset rfl⟩
      rintro all _ ⟨rfl⟩
      exact all
  | setText text =>
      refine iff_of_true ?_ nofun
      have opened := reached.opened.setText text
      have same : s.detector.setText text = d.setText text := by
        rw [Detector.setText, rests.rule, Detector.setText]
      change (s.detector.setText text).current ∈ kept layers (d.setText text)
      rw [same]
      exact mem_kept_of_opened opened

/-- The question for a boundary behind an abbreviation is answered with no, and leaves the cursor
there. -/
theorem stands_of_reached_dropped :
    ∃ layer d s, Reached [layer] d s ∧ s.current = 4 ∧ d.length = 6 ∧
      layer.suppresses d.text s.current = true := by
  let layer : AbbreviationIndex := ⟨some ⟨#[0x32, 46, 114, 77, 0x8002], by decide⟩, none⟩
  let d := Detector.withBoundaries Detector.ends ['M', 'r', '.', ' ', 'X', '.'] [0, 4, 6]
  let s := ((Call.isBoundary 4).run ⟨[layer], d⟩).2
  exact ⟨layer, d, s,
    .call (.start (.scripted _ _ (by decide) (by decide) (by decide))) (.isBoundary 4),
    by decide, by decide, by decide⟩

/-- From the boundary where such a question leaves the cursor, the next move leads to one that is
kept. -/
theorem stands_of_reached_next :
    ∃ layer d s, Reached [layer] d s ∧ (⟨[layer], d⟩ : Segmenter).current ∈ kept [layer] d ∧
      s.current ∉ kept [layer] d ∧ (Call.next.run s).2.current ∈ kept [layer] d := by
  let layer : AbbreviationIndex := ⟨some ⟨#[0x32, 46, 114, 77, 0x8002], by decide⟩, none⟩
  let d := Detector.withBoundaries Detector.ends ['M', 'r', '.', ' ', 'X', '.'] [0, 4, 6]
  have opened : d.Opened := .scripted _ _ (by decide) (by decide) (by decide)
  have reached : Reached [layer] d ((Call.isBoundary 4).run ⟨[layer], d⟩).2 :=
    .call (.start opened) (.isBoundary 4)
  obtain ⟨starts, calls⟩ := stands_of_reached [layer]
  refine ⟨layer, d, _, reached, starts d opened, fun member => ?_,
    ((calls d _ reached).2 .next).2 nofun⟩
  have next : IsLeast {n | n ∈ d.boundaries.offsets ∧ 4 ≤ n} 4 :=
    ⟨⟨by decide, Nat.le_refl 4⟩, fun _ other => other.2⟩
  have dropped := ((calls d _ (.start opened)).2 (.isBoundary 4)).1 member 4 rfl 4 next
  rcases dropped with ⟨_, start | stop | clear⟩
  · exact absurd start (by decide)
  · exact absurd stop (by decide)
  · exact absurd (clear layer List.mem_cons_self) (by decide)

end Segmenter

end SentenceBreaks
