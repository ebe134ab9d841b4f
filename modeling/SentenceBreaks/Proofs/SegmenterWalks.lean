import SentenceBreaks.Proofs.SegmenterCalls
import Mathlib.Data.List.Sort

/-! The walks of a segmenter from one end of the text to the other. A walk answers what is ahead of
the cursor, but for what some layer drops, and stops behind the last of it. So both walks answer the
kept boundaries, in either direction, whatever the order of the layers is and however often one of
them is repeated. -/

namespace SentenceBreaks

namespace Segmenter

open Boundaries

variable {direction : Direction} {d : Detector} {n : Nat} {layers : List AbbreviationIndex}
  {s : Segmenter}

theorem filter_dropWhile (p : Nat → Bool) (path : List Nat) :
    (path.dropWhile p).filter (!p ·) = path.filter (!p ·) := by
  induction path with
  | nil => rfl
  | cons n path ih =>
      by_cases dropped : p n = true
      · rw [List.dropWhile_cons_of_pos dropped, List.filter_cons_of_neg (by simp [dropped]), ih]
      · rw [List.dropWhile_cons_of_neg dropped]

/-- What is ahead of a segmenter and not dropped. -/
def keptAhead (direction : Direction) (layers : List AbbreviationIndex) (d : Detector)
    (s : Segmenter) : List Nat :=
  (direction.ahead s.detector.boundaries).filter (!dropsAny direction layers d ·)

/-- A single move takes the first of what is kept ahead, or stops if there is nothing. -/
inductive Stepped (direction : Direction) (layers : List AbbreviationIndex) (d : Detector)
    (s : Segmenter) : Option Nat × Segmenter → Prop
  | stopped {after : Segmenter} (rests : Rests layers d after)
      (nothing : s.keptAhead direction layers d = [])
      (ended : direction.ahead after.detector.boundaries = []) :
      Stepped direction layers d s (none, after)
  | moved {n : Nat} {after : Segmenter} (rests : Rests layers d after) (stands : after.current = n)
      (kept : s.keptAhead direction layers d = n :: after.keptAhead direction layers d)
      (shorter : (direction.ahead after.detector.boundaries).length <
        (direction.ahead s.detector.boundaries).length) :
      Stepped direction layers d s (some n, after)

theorem Rests.stepped (rests : Rests layers d s) (direction : Direction) :
    Stepped direction layers d s (s.move direction direction.step) := by
  have landed := (rests.move_leads (landed_step direction _)).landed
  have moved := rests.move_rests (landed_step direction _)
  have shorter := (List.dropWhile_sublist (dropsAny direction layers d)
    (l := direction.ahead s.detector.boundaries)).length_le
  have same : s.keptAhead direction layers d = _ := (filter_dropWhile _ _).symm
  generalize s.move direction direction.step = result at landed moved ⊢
  obtain ⟨answer, after⟩ := result
  cases rest : (direction.ahead s.detector.boundaries).dropWhile
      (dropsAny direction layers d) with
  | nil =>
      rw [rest] at landed same
      obtain rfl : answer = none := landed.answer
      exact .stopped moved same landed.onward
  | cons n path =>
      rw [rest] at landed shorter same
      have kept : dropsAny direction layers d n = false := by
        have head := List.head?_dropWhile_not (dropsAny direction layers d)
          (direction.ahead s.detector.boundaries)
        rwa [rest] at head
      obtain rfl : answer = some n := landed.answer
      have onward : direction.ahead after.detector.boundaries = path := landed.onward
      rw [List.filter_cons_of_pos (by simp [kept]), ← onward] at same
      rw [List.length_cons, ← onward] at shorter
      exact .moved moved (landed.stands n rfl) same shorter

/-- A walk with fuel for all that is ahead answers what is not dropped of it. The induction is on
the fuel, and each move leaves less ahead. -/
theorem Rests.walk_eq (rests : Rests layers d s) (direction : Direction) (fuel : Nat)
    (enough : (direction.ahead s.detector.boundaries).length < fuel) :
    (walk (Segmenter.move direction direction.step) fuel s).1 = s.keptAhead direction layers d ∧
      direction.ahead
        (walk (Segmenter.move direction direction.step) fuel s).2.detector.boundaries = [] := by
  induction fuel generalizing s with
  | zero => contradiction
  | succ fuel ih =>
      have stepped := rests.stepped direction
      rw [walk]
      generalize s.move direction direction.step = result at stepped ⊢
      cases stepped with
      | stopped rests nothing ended => exact ⟨nothing.symm, ended⟩
      | moved rests stands kept shorter =>
          obtain ⟨answers, ended⟩ := ih rests (by omega)
          exact ⟨by rw [kept, ← answers], ended⟩

/-- At an end of the boundaries nothing is answered in that direction. -/
theorem Rests.move_none (rests : Rests layers d s)
    (nothing : direction.ahead s.detector.boundaries = []) :
    (s.move direction direction.step).1 = none := by
  have answer := (rests.move_leads (landed_step direction _)).landed.answer
  rw [nothing] at answer
  exact answer

theorem Reached.step (reached : Reached layers d s) (direction : Direction) :
    Reached layers d (s.move direction direction.step).2 := by
  cases direction with
  | onward => exact reached.call .next
  | backward => exact reached.call .previous

theorem Reached.walk (reached : Reached layers d s) (direction : Direction) (fuel : Nat) :
    Reached layers d (walk (Segmenter.move direction direction.step) fuel s).2 := by
  induction fuel generalizing s with
  | zero => exact reached
  | succ fuel ih =>
      have moved := reached.step direction
      rw [Segmenter.walk]
      split
      next stopped same =>
        rw [same] at moved
        exact moved
      next after same =>
        rw [same] at moved
        exact ih moved

/-- What the walk from an end answers: the end where it starts, and all that is kept ahead of it. -/
theorem Reached.walk_from (reached : Reached layers d s) (direction : Direction)
    (own : s.current ∈ kept layers d)
    (edge : ∀ n ∈ d.boundaries.offsets, n = s.current ∨ direction.Past s.current n) :
    let rest :=
      Segmenter.walk (Segmenter.move direction direction.step) s.detector.boundaries.size s
    (s.current :: rest.1).Pairwise direction.Past ∧
      (∀ n, n ∈ s.current :: rest.1 ↔ n ∈ kept layers d) ∧
      (rest.2.move direction direction.step).1 = none ∧ Reached layers d rest.2 := by
  have rests := reached.rests
  have covers := reached.opened.covers
  have ended := reached.walk direction s.detector.boundaries.size
  have sorted := covers.sorted
  rw [← rests.offsets] at sorted
  have along : direction.Path s.current _ _ := path_ahead sorted
  have room : (direction.ahead s.detector.boundaries).length < s.detector.boundaries.size := by
    unfold Boundaries.size
    cases direction with
    | onward =>
        simp only [Direction.ahead]
        omega
    | backward =>
        simp only [Direction.ahead]
        omega
  obtain ⟨answers, nothing⟩ := rests.walk_eq direction _ room
  have inside : direction = .backward → s.current ≤ d.length := fun _ =>
    covers.inside _ own.1
  refine ⟨?_, fun n => ?_, ended.rests.move_none nothing, ended⟩
  · rw [answers, keptAhead]
    refine List.pairwise_cons.2 ⟨fun n member => ?_, along.sorted.filter _⟩
    exact ((along.mem n).1 (List.mem_filter.1 member).1).2
  · rw [answers, keptAhead, List.mem_cons, List.mem_filter, along.mem, rests.offsets,
      Bool.not_eq_true']
    constructor
    · rintro (rfl | ⟨⟨member, past⟩, stays⟩)
      · exact own
      · exact (mem_kept_iff_of_past past inside).2 ⟨member, stays⟩
    · intro member
      rcases edge n member.1 with same | past
      · exact Or.inl same
      · exact Or.inr ⟨⟨member.1, past⟩, ((mem_kept_iff_of_past past inside).1 member).2⟩

theorem Reached.forward (reached : Reached layers d s) :
    s.forward.1.Pairwise (· < ·) ∧ (∀ n, n ∈ s.forward.1 ↔ n ∈ kept layers d) ∧
      s.forward.2.next.1 = none ∧ Reached layers d s.forward.2 := by
  have started : Reached layers d s.first := reached.call .first
  have covers := reached.opened.covers
  have sorted := covers.sorted
  rw [← started.rests.offsets] at sorted
  have behind : Direction.backward.Path s.first.current _ _ := path_ahead sorted
  have edge : ∀ n ∈ d.boundaries.offsets, n = s.first.current ∨ s.first.current < n := by
    intro n member
    have nothing : ¬ n < s.first.current := fun less => by
      have before := (behind.mem n).2 ⟨started.rests.offsets ▸ member, less⟩
      rw [show Direction.backward.ahead s.first.detector.boundaries = [] from
        before_first s.detector.boundaries] at before
      contradiction
    omega
  have own : s.first.current = 0 := by
    have := edge 0 covers.start
    omega
  exact started.walk_from .onward ⟨own ▸ covers.start, Or.inl own⟩ edge

theorem Reached.backward (reached : Reached layers d s) :
    s.backward.1.Pairwise (· > ·) ∧ (∀ n, n ∈ s.backward.1 ↔ n ∈ kept layers d) ∧
      s.backward.2.previous.1 = none ∧ Reached layers d s.backward.2 := by
  have started : Reached layers d s.last := reached.call .last
  have covers := reached.opened.covers
  have sorted := covers.sorted
  rw [← started.rests.offsets] at sorted
  have behind : Direction.onward.Path s.last.current _ _ := path_ahead sorted
  have edge : ∀ n ∈ d.boundaries.offsets, n = s.last.current ∨ n < s.last.current := by
    intro n member
    have nothing : ¬ s.last.current < n := fun more => by
      have after := (behind.mem n).2 ⟨started.rests.offsets ▸ member, more⟩
      rw [show Direction.onward.ahead s.last.detector.boundaries = [] from
        after_last s.detector.boundaries] at after
      contradiction
    omega
  have stands : s.last.current ∈ d.boundaries.offsets := by
    rw [← started.rests.offsets]
    exact List.mem_append_right _ List.mem_cons_self
  have own : s.last.current = d.length := by
    have upper := covers.inside _ stands
    have lower := edge d.length covers.stop
    omega
  exact started.walk_from .backward ⟨stands, Or.inr (Or.inl own)⟩ edge

/-- The boundaries for which a segmenter answers that they are. -/
def confirmed (d : Detector) (s : Segmenter) : List Nat :=
  d.boundaries.offsets.filter fun n => (s.isBoundary n).1

theorem Reached.confirmed (reached : Reached layers d s) :
    (s.confirmed d).Pairwise (· < ·) ∧ ∀ n, n ∈ s.confirmed d ↔ n ∈ kept layers d := by
  have covers := reached.opened.covers
  refine ⟨covers.sorted.filter _, fun n => ?_⟩
  rw [Segmenter.confirmed, List.mem_filter, reached.rests.isBoundary_iff covers]
  exact ⟨And.right, fun member => ⟨member.1, member⟩⟩

theorem mem_kept_iff (covers : d.Covers) : n ∈ kept layers d ↔ n = 0 ∨ n = d.length ∨
    n ∈ d.boundaries.offsets ∧ ∀ layer ∈ layers, layer.suppresses d.text n = false := by
  constructor
  · rintro ⟨member, rfl | same | stays⟩
    · exact Or.inl rfl
    · exact Or.inr (Or.inl same)
    · exact Or.inr (Or.inr ⟨member, stays⟩)
  · rintro (rfl | rfl | ⟨member, stays⟩)
    · exact ⟨covers.start, Or.inl rfl⟩
    · exact ⟨covers.stop, Or.inr (Or.inl rfl)⟩
    · exact ⟨member, Or.inr (Or.inr stays)⟩

/-- The kept boundaries depend on which layers there are, and on nothing else of the stack. -/
theorem kept_congr {others : List AbbreviationIndex}
    (same : ∀ layer, layer ∈ others ↔ layer ∈ layers) : kept others d = kept layers d := by
  unfold kept
  simp only [same]

/-- All ways to list the boundaries agree on one list. -/
theorem Reached.lists (reached : Reached layers d s) {walked : List Nat}
    (sorted : walked.Pairwise (· < ·)) (members : ∀ n, n ∈ walked ↔ n ∈ kept layers d) :
    s.forward.1 = walked ∧ s.backward.1.reverse = walked ∧ s.confirmed d = walked := by
  obtain ⟨forward_sorted, forward_members, _⟩ := reached.forward
  obtain ⟨backward_sorted, backward_members, _⟩ := reached.backward
  obtain ⟨confirmed_sorted, confirmed_members⟩ := reached.confirmed
  refine ⟨forward_sorted.eq_of_mem_iff sorted fun n => ?_,
    (List.pairwise_reverse.2 backward_sorted).eq_of_mem_iff sorted fun n => ?_,
    confirmed_sorted.eq_of_mem_iff sorted fun n => ?_⟩
  · rw [forward_members, members]
  · rw [List.mem_reverse, backward_members, members]
  · rw [confirmed_members, members]

/-- Whatever was called before, a walk forward, a walk backward and the question for each boundary
all give one list: the ends of the text, and the boundaries that no layer suppresses. Another stack
of the same layers gives it too, in any order and with any repetitions. -/
theorem walks_of_reached (reached : Reached layers d s) :
    ∃ walked : List Nat, walked.Pairwise (· < ·) ∧
      (∀ n, n ∈ walked ↔ n = 0 ∨ n = d.length ∨
        n ∈ d.boundaries.offsets ∧ ∀ layer ∈ layers, layer.suppresses d.text n = false) ∧
      s.forward.1 = walked ∧ s.backward.1.reverse = walked ∧ s.confirmed d = walked ∧
      s.forward.2.next.1 = none ∧ s.backward.2.previous.1 = none ∧
      Reached layers d s.forward.2 ∧ Reached layers d s.backward.2 ∧
      ∀ (others : List AbbreviationIndex) (other : Segmenter),
        (∀ layer, layer ∈ others ↔ layer ∈ layers) → Reached others d other →
          other.forward.1 = walked ∧ other.backward.1.reverse = walked ∧
            other.confirmed d = walked := by
  obtain ⟨sorted, members, forward_ends, forward_reached⟩ := reached.forward
  obtain ⟨_, _, backward_ends, backward_reached⟩ := reached.backward
  obtain ⟨forward, backward, listed⟩ := reached.lists sorted members
  refine ⟨s.forward.1, sorted, fun n => (members n).trans (mem_kept_iff reached.opened.covers),
    forward, backward, listed, forward_ends, backward_ends, forward_reached, backward_reached, ?_⟩
  intro others other same other_reached
  exact other_reached.lists sorted fun n => (kept_congr same).symm ▸ members n

/-- Two layers, each of which suppresses another boundary. One stack has one of them twice and was
left in the middle of the text. -/
theorem walks_of_reached_repeated :
    ∃ first second d s t, Reached [first, second] d s ∧ Reached [second, first, second] d t ∧
      t.current = 4 ∧ d.boundaries.offsets = [0, 4, 7, 8] ∧ s.forward.1 = [0, 8] ∧
      t.backward.1.reverse = [0, 8] := by
  have same : ∀ first second layer : AbbreviationIndex,
      layer ∈ [second, first, second] ↔ layer ∈ [first, second] := by
    intro first second layer
    simp only [List.mem_cons, List.not_mem_nil, or_false, or_left_comm, or_self]
  let first : AbbreviationIndex := ⟨some ⟨#[0x32, 46, 114, 68, 0x8002], by decide⟩, none⟩
  let second : AbbreviationIndex := ⟨some ⟨#[0x31, 46, 65, 0x8002], by decide⟩, none⟩
  let d := Detector.withBoundaries Detector.ends ['D', 'r', '.', ' ', 'A', '.', ' ', 'b']
    [0, 4, 7, 8]
  have opened : d.Opened := .scripted _ _ (by decide) (by decide) (by decide)
  have reached : Reached [first, second] d ⟨[first, second], d⟩ := .start opened
  let t := ((Call.isBoundary 4).run ⟨[second, first, second], d⟩).2
  have other_reached : Reached [second, first, second] d t := .call (.start opened) (.isBoundary 4)
  obtain ⟨walked, _, _, forward, _, _, _, _, _, _, others⟩ := walks_of_reached reached
  have shape : walked = [0, 8] := forward.symm.trans (by decide)
  obtain ⟨_, backward, _⟩ := others [second, first, second] t (same first second) other_reached
  exact ⟨first, second, d, _, t, reached, other_reached, by decide, by decide,
    forward.trans shape, backward.trans shape⟩

end Segmenter

end SentenceBreaks
