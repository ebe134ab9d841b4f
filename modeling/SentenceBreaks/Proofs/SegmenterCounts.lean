import SentenceBreaks.Proofs.SegmenterEnds
import SentenceBreaks.Proofs.SegmenterWalks

/-! Moves by a count. The count is one of the detector's own boundaries: those that a layer drops
are counted like the others, and only where the count ends does the move go on to a kept one. So it
comes to the same as so many single moves just when nothing dropped is passed before its end, or
when it leads past the end of the text. -/

namespace SentenceBreaks

namespace Segmenter

open Boundaries

variable {direction : Direction} {path : List Nat} {d : Detector} {n : Nat}
  {layers : List AbbreviationIndex} {s : Segmenter} {start : Boundaries → Option Nat × Boundaries}

/-- A move to the next kept boundary in a direction. -/
def single : Direction → Segmenter → Option Nat × Segmenter
  | .onward => next
  | .backward => previous

/-- So many single moves, up to the first that answers none. -/
def repeated (direction : Direction) : Nat → Segmenter → Option Nat × Segmenter
  | 0, s => (some s.current, s)
  | count + 1, s =>
      match s.single direction with
      | (none, stopped) => (none, stopped)
      | (some _, moved) => repeated direction count moved

theorem single_eq (direction : Direction) (s : Segmenter) :
    s.single direction = s.move direction direction.step := by
  cases direction with
  | onward => rfl
  | backward => rfl

/-- Where moves have come to: to what they answer, or else to an end of the boundaries. -/
structure Arrived (direction : Direction) (layers : List AbbreviationIndex) (d : Detector)
    (result : Option Nat × Segmenter) : Prop where
  rests : Rests layers d result.2
  stands : ∀ n, result.1 = some n → result.2.current = n
  stops : result.1 = none → direction.ahead result.2.detector.boundaries = []

theorem Rests.move_arrived (rests : Rests layers d s)
    (landed : Landed direction path s.detector.boundaries.offsets (start s.detector.boundaries)) :
    Arrived direction layers d (s.move direction start) where
  rests := rests.move_rests landed
  stands := fun n answer => rests.move_stands landed answer
  stops := fun nothing => by
    have further := (rests.move_leads landed).landed
    have empty := List.head?_eq_none_iff.1 (further.answer.symm.trans nothing)
    have onward := further.onward
    rwa [empty] at onward

theorem Rests.repeated_arrived (rests : Rests layers d s) (direction : Direction) (count : Nat) :
    Arrived direction layers d (s.repeated direction count) := by
  induction count generalizing s with
  | zero => exact ⟨rests, fun n same => Option.some.inj same, nofun⟩
  | succ count ih =>
      have stepped := rests.stepped direction
      rw [repeated, single_eq]
      generalize s.move direction direction.step = result at stepped ⊢
      cases stepped with
      | stopped rests nothing ended => exact ⟨rests, nofun, fun _ => ended⟩
      | moved rests stands kept shorter => exact ih rests

/-- Single moves count what is kept ahead. -/
theorem Rests.repeated_answer (rests : Rests layers d s) (direction : Direction) (count : Nat) :
    (s.repeated direction count).1 = (s.current :: s.keptAhead direction layers d)[count]? := by
  induction count generalizing s with
  | zero => rfl
  | succ count ih =>
      have stepped := rests.stepped direction
      rw [repeated, single_eq]
      generalize s.move direction direction.step = result at stepped ⊢
      cases stepped with
      | stopped rests nothing ended =>
          rw [nothing]
          rfl
      | moved rests stands kept shorter =>
          rw [kept, List.getElem?_cons_succ, ← stands]
          exact ih rests

/-- Moves that answer alike come to the same place. -/
theorem Arrived.current_eq {first second : Option Nat × Segmenter} (covers : d.Covers)
    (one : Arrived direction layers d first) (other : Arrived direction layers d second)
    (same : first.1 = second.1) : first.2.current = second.2.current := by
  cases answer : first.1 with
  | some n =>
      calc first.2.current
          = n := one.stands n answer
        _ = second.2.current := (other.stands n (same.symm.trans answer)).symm
  | none =>
      calc first.2.current
          = direction.limit d := current_eq_limit covers one.rests.offsets (one.stops answer)
        _ = second.2.current := by
            have stops := other.stops (same.symm.trans answer)
            exact (current_eq_limit covers other.rests.offsets stops).symm

/-- What stands behind a list and not again later is found at no index but the length of the
list. -/
theorem getElem?_append_cons_eq_iff {front rest : List Nat} {count : Nat}
    (few : front.length ≤ count) (once : n ∉ rest) :
    (front ++ n :: rest)[count]? = some n ↔ front.length = count := by
  rw [List.getElem?_append_right few]
  cases gap : count - front.length with
  | zero => exact iff_of_true rfl (Nat.le_antisymm few (Nat.le_of_sub_eq_zero gap))
  | succ more =>
      refine iff_of_false (fun later => once (List.mem_of_getElem? later)) fun same => ?_
      rw [same, Nat.sub_self] at gap
      contradiction

/-- The first offset behind some others that is not dropped is the one that counting those not
dropped comes to, just when none of the others is dropped. -/
theorem head?_dropWhile_drop_eq_iff {dropped : Nat → Bool} {count : Nat} (distinct : path.Nodup)
    (found : ∃ n ∈ path.drop count, dropped n = false) :
    ((path.drop count).dropWhile dropped).head? = (path.filter (!dropped ·))[count]? ↔
      ∀ n ∈ path.take count, dropped n = false := by
  obtain ⟨n, member, stays⟩ := found
  have room := List.length_pos_of_mem member
  rw [List.length_drop] at room
  have whole : (path.take count).length = count := by
    rw [List.length_take]
    omega
  have few := List.length_filter_le (!dropped ·) (path.take count)
  rw [whole] at few
  have parts : path.filter (!dropped ·) =
      (path.take count).filter (!dropped ·) ++ (path.drop count).filter (!dropped ·) := by
    rw [← List.filter_append, List.take_append_drop]
  have distinct_rest := (distinct.sublist (List.drop_sublist count path)).filter (!dropped ·)
  have listed : n ∈ (path.drop count).filter (!dropped ·) :=
    List.mem_filter.2 ⟨member, congrArg not stays⟩
  rw [← List.find?_not_eq_head?_dropWhile, ← List.head?_filter, parts]
  cases cut : (path.drop count).filter (!dropped ·) with
  | nil =>
      rw [cut] at listed
      contradiction
  | cons first rest =>
      rw [cut] at distinct_rest
      calc some first = ((path.take count).filter (!dropped ·) ++ first :: rest)[count]?
          ↔ ((path.take count).filter (!dropped ·)).length = count := by
            rw [eq_comm, getElem?_append_cons_eq_iff few (List.nodup_cons.1 distinct_rest).1]
        _ ↔ ((path.take count).filter (!dropped ·)).length = (path.take count).length := by
            rw [whole]
        _ ↔ ∀ n ∈ path.take count, dropped n = false := by
            simp only [List.length_filter_eq_length_iff, Bool.not_eq_true']

/-- In front of the end of the text, what a layer drops in either direction is what is not kept. -/
theorem mem_kept_iff_dropsAny (member : n ∈ d.boundaries.offsets)
    (inner : direction = .backward → n < d.length) :
    n ∈ kept layers d ↔ dropsAny direction layers d n = false := by
  refine ⟨?_, mem_kept_of_stays member⟩
  rw [dropsAny_eq_false_iff]
  rintro ⟨_, rfl | rfl | clear⟩
  · exact Or.inr fun layer _ => layer.suppresses_zero d.text
  · cases direction with
    | onward => exact Or.inl rfl
    | backward => exact absurd (inner rfl) (Nat.lt_irrefl _)
  · exact Or.inr clear

theorem limit_mem (direction : Direction) (covers : d.Covers) :
    direction.limit d ∈ d.boundaries.offsets := by
  cases direction with
  | onward => exact covers.stop
  | backward => exact covers.start

theorem eq_or_past_limit (direction : Direction) (covers : d.Covers)
    (member : n ∈ d.boundaries.offsets) :
    direction.limit d = n ∨ direction.Past n (direction.limit d) := by
  cases direction with
  | onward => exact (Nat.eq_or_lt_of_le (covers.inside n member)).imp Eq.symm id
  | backward => exact (Nat.eq_zero_or_pos n).imp Eq.symm id

/-- Where its direction ends is ahead of a cursor from any count on that does not lead past it. -/
theorem limit_mem_drop (direction : Direction) (covers : d.Covers) {count : Nat}
    (room : count ≤ (direction.ahead d.boundaries).length) :
    direction.limit d ∈ (d.current :: direction.ahead d.boundaries).drop count := by
  have found := List.getElem?_eq_getElem (l := d.current :: direction.ahead d.boundaries)
    (Nat.lt_succ_of_le room)
  have start := (mem_drop_ahead_iff covers.sorted found).1 <| by
    rw [List.drop_eq_getElem_cons (Nat.lt_succ_of_le room)]
    exact List.mem_cons_self
  exact (mem_drop_ahead_iff covers.sorted found).2
    ⟨limit_mem direction covers, eq_or_past_limit direction covers start.1⟩

theorem lt_length_of_ahead (covers : d.Covers) (member : n ∈ direction.ahead d.boundaries)
    (back : direction = .backward) : n < d.length := by
  have along : direction.Path d.current _ _ := path_ahead covers.sorted
  subst back
  calc n < d.current := ((along.mem n).1 member).2
    _ ≤ d.length := covers.inside _ (current_mem d.boundaries)

/-- Only a count of none leads to where the cursor stands, and it is no backward move. -/
theorem lt_length_of_drop (covers : d.Covers) {count : Int}
    (member : n ∈ (d.current :: (Direction.ofCount count).ahead d.boundaries).drop count.natAbs)
    (back : Direction.ofCount count = .backward) : n < d.length := by
  have negative : count < 0 := by
    by_contra positive
    rw [Direction.ofCount, if_neg positive] at back
    contradiction
  obtain ⟨less, same⟩ :=
    Nat.exists_eq_succ_of_ne_zero (Int.natAbs_ne_zero.2 (Int.ne_of_lt negative))
  rw [same, List.drop_succ_cons] at member
  exact lt_length_of_ahead covers (List.mem_of_mem_drop member) back

theorem nextBy_answer (count : Int) (s : Segmenter) : (s.nextBy count).1 =
    (((s.current :: (Direction.ofCount count).ahead s.detector.boundaries).drop
      count.natAbs).dropWhile
        (dropsAny (Direction.ofCount count) s.layers s.detector)).head? :=
  ((Rests.refl s).move_leads (landed_nextBy_drop count _)).landed.answer

/-- A move by a count answers the first kept boundary from where the count ends. -/
theorem nextBy_answers (covers : s.detector.Covers) (count : Int) {target : Nat}
    (found : (s.current :: (Direction.ofCount count).ahead s.detector.boundaries)[count.natAbs]? =
      some target) :
    ∃ n, (s.nextBy count).1 = some n ∧ (Direction.ofCount count).IsFirst
      {n | n ∈ kept s.layers s.detector ∧ (n = target ∨ (Direction.ofCount count).Past target n)}
      n := by
  have room := (List.getElem?_eq_some_iff.1 found).1
  have sorted := (sorted_cons_ahead covers.sorted).sublist
    (List.drop_sublist count.natAbs (s.current :: (Direction.ofCount count).ahead _))
  have first := Direction.answers_of_sorted sorted
    (dropsAny (Direction.ofCount count) s.layers s.detector)
  have same : {n | n ∈ kept s.layers s.detector ∧
      (n = target ∨ (Direction.ofCount count).Past target n)} =
      {n | n ∈ (s.current :: (Direction.ofCount count).ahead s.detector.boundaries).drop
        count.natAbs ∧ dropsAny (Direction.ofCount count) s.layers s.detector n = false} := by
    ext n
    constructor
    · rintro ⟨member, there⟩
      have passed := (mem_drop_ahead_iff covers.sorted found).2 ⟨member.1, there⟩
      exact ⟨passed, (mem_kept_iff_dropsAny member.1 (lt_length_of_drop covers passed)).1 member⟩
    · rintro ⟨passed, stays⟩
      have listed := (mem_drop_ahead_iff covers.sorted found).1 passed
      exact ⟨(mem_kept_iff_dropsAny listed.1 (lt_length_of_drop covers passed)).2 stays, listed.2⟩
  have stop := limit_mem_drop (Direction.ofCount count) covers (Nat.le_of_lt_succ room)
  rw [← nextBy_answer] at first
  rw [same]
  exact first.exists_of_mem ⟨stop, dropsAny_eq_false_iff.2 (Or.inl rfl)⟩

/-- Behind so many boundaries, the first one that is kept is as many kept ones away just when all of
them are kept, or when there are not so many ahead. -/
theorem head?_ahead_eq_iff (covers : s.detector.Covers) (direction : Direction) (passed : Nat) :
    (((direction.ahead s.detector.boundaries).drop passed).dropWhile
        (dropsAny direction s.layers s.detector)).head? =
      (s.keptAhead direction s.layers s.detector)[passed]? ↔
        (direction.ahead s.detector.boundaries).length < passed + 1 ∨
          ∀ n ∈ (direction.ahead s.detector.boundaries).take passed,
            n ∈ kept s.layers s.detector := by
  have along : direction.Path s.current _ _ := path_ahead covers.sorted
  unfold keptAhead
  by_cases short : (direction.ahead s.detector.boundaries).length < passed + 1
  · refine iff_of_true ?_ (Or.inl short)
    have all := Nat.le_of_lt_succ short
    have fewer := List.length_filter_le (!dropsAny direction s.layers s.detector ·)
      (direction.ahead s.detector.boundaries)
    rw [List.drop_eq_nil_of_le all, List.getElem?_eq_none (Nat.le_trans fewer all)]
    rfl
  · have distinct : (direction.ahead s.detector.boundaries).Nodup := by
      refine along.sorted.imp fun {m n} past => ?_
      rintro rfl
      exact Direction.past_irrefl m past
    have stop := limit_mem_drop direction covers (Nat.not_lt.1 short)
    rw [List.drop_succ_cons] at stop
    rw [or_iff_right short, head?_dropWhile_drop_eq_iff distinct
      ⟨_, stop, dropsAny_eq_false_iff.2 (Or.inl rfl)⟩]
    refine forall₂_congr fun n member => (mem_kept_iff_dropsAny ?_ ?_).symm
    · exact ((along.mem n).1 (List.mem_of_mem_take member)).1
    · exact lt_length_of_ahead covers (List.mem_of_mem_take member)

/-- A move by a count and so many single moves answer alike just when the count leads past the end
of the text, or what it passes is kept. -/
theorem nextBy_answer_eq_iff (covers : s.detector.Covers)
    (own : s.current ∈ kept s.layers s.detector) (count : Int) :
    (s.nextBy count).1 = (s.repeated (.ofCount count) count.natAbs).1 ↔
      ((Direction.ofCount count).ahead s.detector.boundaries).length < count.natAbs ∨
        ∀ n ∈ ((Direction.ofCount count).ahead s.detector.boundaries).take (count.natAbs - 1),
          n ∈ kept s.layers s.detector := by
  have inner : s.current ∈ List.drop count.natAbs _ → _ → s.current < s.detector.length :=
    lt_length_of_drop covers
  rw [nextBy_answer, (Rests.refl s).repeated_answer]
  cases size : count.natAbs with
  | zero =>
      rw [size] at inner
      have stays := (mem_kept_iff_dropsAny own.1 (inner List.mem_cons_self)).1 own
      refine iff_of_true ?_ (Or.inr nofun)
      rw [List.drop_zero, List.dropWhile_cons_of_neg (by simp [stays])]
      rfl
  | succ passed =>
      rw [List.drop_succ_cons, List.getElem?_cons_succ, Nat.add_sub_cancel]
      exact head?_ahead_eq_iff covers (.ofCount count) passed

theorem nextBy_arrived (count : Int) (s : Segmenter) :
    Arrived (.ofCount count) s.layers s.detector (s.nextBy count) :=
  (Rests.refl s).move_arrived (landed_nextBy_drop count _)

/-- A move by a count from a kept boundary. It leaves so many boundaries behind, kept or not, and
answers the first kept one from there, or none past the end. So it answers what so many single moves
answer, and comes to the same place, just when none of those that it passes is dropped or when the
count leads past the end. -/
theorem nextBy_eq_repeated_iff (s : Segmenter) (covers : s.detector.Covers)
    (own : s.current ∈ kept s.layers s.detector) (count : Int) :
    let direction := Direction.ofCount count
    let ahead := direction.ahead s.detector.boundaries
    let moved := s.nextBy count
    let each := s.repeated direction count.natAbs
    (∀ target, (s.current :: ahead)[count.natAbs]? = some target →
      ∃ n, moved.1 = some n ∧ moved.2.current = n ∧ direction.IsFirst
        {n | n ∈ kept s.layers s.detector ∧ (n = target ∨ direction.Past target n)} n) ∧
    (ahead.length < count.natAbs →
      moved.1 = none ∧ moved.2.current = direction.limit s.detector) ∧
    (moved.1 = each.1 ↔
      ahead.length < count.natAbs ∨
        ∀ n ∈ ahead.take (count.natAbs - 1), n ∈ kept s.layers s.detector) ∧
    (moved.1 = each.1 → moved.2.current = each.2.current) := by
  intro direction ahead moved each
  have arrived : Arrived direction s.layers s.detector moved := nextBy_arrived count s
  have repeats := (Rests.refl s).repeated_arrived direction count.natAbs
  refine ⟨fun target found => ?_, fun past => ?_, nextBy_answer_eq_iff covers own count,
    arrived.current_eq covers repeats⟩
  · obtain ⟨n, answer, first⟩ := nextBy_answers covers count found
    exact ⟨n, answer, arrived.stands n answer, first⟩
  · have beyond : (s.current :: ahead).length ≤ count.natAbs := past
    have nothing : moved.1 = none := by
      rw [nextBy_answer, List.drop_eq_nil_of_le beyond]
      rfl
    exact ⟨nothing, current_eq_limit covers arrived.rests.offsets (arrived.stops nothing)⟩

/-- A dropped boundary where the count ends, none before it. -/
theorem nextBy_eq_repeated_kept :
    ∃ s : Segmenter, s.detector.Covers ∧ s.current ∈ kept s.layers s.detector ∧
      s.detector.boundaries.after = [4, 8, 13, 19, 27] ∧
      (s.nextBy 3).1 = some 19 ∧ (s.nextBy 3).1 = (s.repeated .onward 3).1 ∧
      (s.nextBy 3).2.current = (s.repeated .onward 3).2.current := by
  let layer : AbbreviationIndex := ⟨some ⟨#[0x33, 46, 115, 114, 77, 0x8002], by decide⟩, none⟩
  let d := Detector.withBoundaries Detector.ends "Mr. and Mrs. Brown arrived.".toList
    [0, 4, 8, 13, 19, 27]
  have opened : d.Opened := .scripted _ _ (by decide) (by decide) (by decide)
  let s : Segmenter := ⟨[layer], d⟩
  have own : s.current ∈ kept s.layers s.detector := mem_kept_of_opened opened
  obtain ⟨_, _, agrees, together⟩ := nextBy_eq_repeated_iff s opened.covers own 3
  have answered : ∀ n ∈ [4, 8], (s.isBoundary n).1 = true := by decide
  have others : ∀ n ∈ [4, 8], n ∈ kept s.layers s.detector := fun n passed =>
    ((Rests.refl s).isBoundary_iff opened.covers).1 (answered n passed)
  have same : (s.nextBy 3).1 = (s.repeated .onward 3).1 := agrees.2 (Or.inr others)
  exact ⟨s, opened.covers, own, by decide, by decide, same, together same⟩

/-- A dropped boundary before the count ends is counted, while single moves pass over it. -/
theorem nextBy_ne_repeated :
    ∃ layer d s, Reached [layer] d s ∧ s.current ∈ kept [layer] d ∧
      (s.nextBy 2).1 = some 7 ∧ (s.next.2.next).1 = some 9 ∧
      (s.repeated .onward 2).1 = some 9 := by
  let layer : AbbreviationIndex := ⟨some ⟨#[0x32, 46, 114, 77, 0x8002], by decide⟩, none⟩
  let d := Detector.withBoundaries Detector.ends "Mr. A. B.".toList [0, 4, 7, 9]
  have opened : d.Opened := .scripted _ _ (by decide) (by decide) (by decide)
  exact ⟨layer, d, _, .start opened, mem_kept_of_opened opened, by decide, by decide, by decide⟩

end Segmenter

end SentenceBreaks
