import SentenceBreaks.Proofs.SegmenterMoves

/-! The calls of a segmenter, in any order. Whatever was called before, a move answers what a search
in the kept boundaries answers from where the cursor stands, and an offset is taken for a boundary
just when it is one of them. Only the cursor is moved by the calls, until a new text comes. -/

namespace SentenceBreaks

namespace Segmenter

open Boundaries

variable {direction : Direction} {path : List Nat} {d : Detector} {n bound : Nat}
  {layers : List AbbreviationIndex} {s : Segmenter} {start : Boundaries → Option Nat × Boundaries}

/-- The boundaries that remain: both ends, and those without an abbreviation in any layer. -/
def kept (layers : List AbbreviationIndex) (d : Detector) : Set Nat :=
  {n | n ∈ d.boundaries.offsets ∧
    (n = 0 ∨ n = d.length ∨ ∀ layer ∈ layers, layer.suppresses d.text n = false)}

/-- A segmenter that rests on a detector; only the cursor may be elsewhere. -/
structure Rests (layers : List AbbreviationIndex) (d : Detector) (s : Segmenter) : Prop where
  layers : s.layers = layers
  text : s.detector.text = d.text
  rule : s.detector.rule = d.rule
  offsets : s.detector.boundaries.offsets = d.boundaries.offsets

/-- An exemption from every layer is either given or not needed. -/
theorem forall_or_iff {exempt : Prop} {text : List Char} :
    (∀ layer ∈ layers, layer.suppresses text n = false ∨ exempt) ↔
      exempt ∨ ∀ layer ∈ layers, layer.suppresses text n = false := by
  by_cases given : exempt
  · simp [given]
  · simp [given]

theorem dropsAny_eq_false_iff : dropsAny direction layers d n = false ↔
    n = direction.limit d ∨ ∀ layer ∈ layers, layer.suppresses d.text n = false := by
  rw [← forall_or_iff]
  simp only [dropsAny, drops, List.any_eq_false, Bool.and_eq_true, decide_eq_true_eq, not_and_or,
    Bool.not_eq_true, not_not]

/-- In its direction a move can only meet one end of the text, and that one it never drops. -/
theorem mem_kept_iff_of_past (past : direction.Past bound n)
    (inside : direction = .backward → bound ≤ d.length) :
    n ∈ kept layers d ↔ n ∈ d.boundaries.offsets ∧ dropsAny direction layers d n = false := by
  rw [dropsAny_eq_false_iff]
  refine and_congr_right fun _ => ?_
  cases direction with
  | onward =>
      rw [or_iff_right (Nat.ne_of_gt (Nat.lt_of_le_of_lt (Nat.zero_le _) past))]
      rfl
  | backward =>
      rw [or_left_comm, or_iff_right (Nat.ne_of_lt (Nat.lt_of_lt_of_le past (inside rfl)))]
      rfl

theorem Rests.move_leads (rests : Rests layers d s)
    (landed : Landed direction path s.detector.boundaries.offsets (start s.detector.boundaries)) :
    Leads direction (path.dropWhile (dropsAny direction layers d)) d
      ((s.move direction start).1, (s.move direction start).2.detector) := by
  have leads := lead_leads s.layers landed
  rw [dropsAny_of_text s.layers rests.text, rests.layers] at leads
  unfold Segmenter.move
  rw [rests.layers]
  exact leads.of_same rests.offsets rests.text rests.rule

/-- A move along the path beyond a bound finds the first kept boundary there. -/
theorem Rests.move_answers (rests : Rests layers d s)
    (landed : Landed direction path s.detector.boundaries.offsets (start s.detector.boundaries))
    (along : direction.Path bound s.detector.boundaries.offsets path)
    (inside : direction = .backward → bound ≤ d.length) :
    direction.Answers {n | n ∈ kept layers d ∧ direction.Past bound n}
      (s.move direction start).1 := by
  have answer := (rests.move_leads landed).landed.answer
  have first := along.answers (dropsAny direction layers d)
  rw [← answer, rests.offsets] at first
  have same : {n | n ∈ kept layers d ∧ direction.Past bound n} = {n | n ∈ d.boundaries.offsets ∧
      direction.Past bound n ∧ dropsAny direction layers d n = false} := by
    ext n
    simp only [Set.mem_ofPred_eq, and_left_comm (b := direction.Past bound n)]
    rw [and_comm]
    exact and_congr_right fun past => mem_kept_iff_of_past past inside
  rwa [same]

theorem Rests.move_stands (rests : Rests layers d s)
    (landed : Landed direction path s.detector.boundaries.offsets (start s.detector.boundaries))
    (answer : (s.move direction start).1 = some n) : (s.move direction start).2.current = n := by
  have further := (rests.move_leads landed).landed
  exact further.stands n (further.answer.symm.trans answer)

theorem Rests.move_rests (rests : Rests layers d s)
    (landed : Landed direction path s.detector.boundaries.offsets (start s.detector.boundaries)) :
    Rests layers d (s.move direction start).2 where
  layers := rests.layers
  text := (rests.move_leads landed).text
  rule := (rests.move_leads landed).rule
  offsets := (rests.move_leads landed).landed.same

/-- What can be asked of a segmenter that changes its state. -/
inductive Call
  | first
  | last
  | next
  | previous
  | nextBy (count : Int)
  | following (offset : Nat)
  | preceding (offset : Nat)
  | isBoundary (offset : Nat)
  | setText (text : List Char)

namespace Call

/-- The offset that a call answers, if it answers one, and the segmenter after it. -/
def run : Call → Segmenter → Option Nat × Segmenter
  | .first, s => (some s.first.current, s.first)
  | .last, s => (some s.last.current, s.last)
  | .next, s => s.next
  | .previous, s => s.previous
  | .nextBy count, s => s.nextBy count
  | .following offset, s => s.following offset
  | .preceding offset, s => s.preceding offset
  | .isBoundary offset, s => (none, (s.isBoundary offset).2)
  | .setText text, s => (none, s.setText text)

/-- The detector that a segmenter rests on after a call: only a new text makes it another one. -/
def detector : Call → Detector → Detector
  | .setText text, d => d.setText text
  | _, d => d

end Call

/-- What a stack of layers over a detector becomes by any calls in any order. -/
inductive Reached (layers : List AbbreviationIndex) : Detector → Segmenter → Prop
  | start {d : Detector} (opened : d.Opened) : Reached layers d ⟨layers, d⟩
  | call {d : Detector} {s : Segmenter} (reached : Reached layers d s) (call : Call) :
      Reached layers (call.detector d) (call.run s).2

theorem Rests.call_rests (rests : Rests layers d s) (call : Call) :
    Rests layers (call.detector d) (call.run s).2 := by
  cases call with
  | first => exact ⟨rests.layers, rests.text, rests.rule, (offsets_first _).trans rests.offsets⟩
  | last => exact ⟨rests.layers, rests.text, rests.rule, (offsets_last _).trans rests.offsets⟩
  | next => exact rests.move_rests (landed_step .onward _)
  | previous => exact rests.move_rests (landed_step .backward _)
  | nextBy count =>
      obtain ⟨path, landed⟩ := landed_nextBy count s.detector.boundaries
      exact rests.move_rests landed
  | following offset => exact rests.move_rests (landed_following offset _)
  | preceding offset => exact rests.move_rests (landed_preceding offset _)
  | isBoundary offset =>
      have same : (s.isBoundary offset).2.detector = (s.detector.isBoundary offset).2 := by
        rw [Segmenter.isBoundary, keeps_eq]
      refine ⟨rests.layers, ?_, ?_, ?_⟩
      · exact (congrArg Detector.text same).trans rests.text
      · exact (congrArg Detector.rule same).trans rests.rule
      · exact (congrArg (fun e => e.boundaries.offsets) same).trans
          ((offsets_isBoundary offset _).trans rests.offsets)
  | setText text =>
      have same : s.detector.setText text = d.setText text := by
        rw [Detector.setText, rests.rule, Detector.setText]
      exact ⟨rests.layers, congrArg Detector.text same, congrArg Detector.rule same,
        congrArg (fun e => e.boundaries.offsets) same⟩

theorem Rests.call_stands (rests : Rests layers d s) (call : Call)
    (answer : (call.run s).1 = some n) : (call.run s).2.current = n := by
  cases call with
  | first => exact Option.some.inj answer
  | last => exact Option.some.inj answer
  | next => exact rests.move_stands (landed_step .onward _) answer
  | previous => exact rests.move_stands (landed_step .backward _) answer
  | nextBy count =>
      obtain ⟨path, landed⟩ := landed_nextBy count s.detector.boundaries
      exact rests.move_stands landed answer
  | following offset => exact rests.move_stands (landed_following offset _) answer
  | preceding offset => exact rests.move_stands (landed_preceding offset _) answer
  | isBoundary offset => contradiction
  | setText text => contradiction

theorem Rests.isBoundary_iff (rests : Rests layers d s) (covers : d.Covers) :
    (s.isBoundary n).1 = true ↔ n ∈ kept layers d := by
  have sorted := covers.sorted
  rw [← rests.offsets] at sorted
  have listed : (s.detector.isBoundary n).1 = true ↔ n ∈ d.boundaries.offsets := by
    rw [← rests.offsets]
    exact Boundaries.isBoundary_iff sorted
  rw [Segmenter.isBoundary, keeps_eq, Bool.and_eq_true, listed]
  refine and_congr_right fun member => ?_
  have inside := covers.inside n member
  have length : s.detector.length = d.length := by
    rw [Detector.length, rests.text, Detector.length]
  have upper : d.length ≤ n ↔ n = d.length :=
    ⟨fun beyond => Nat.le_antisymm inside beyond, fun same => Nat.le_of_eq same.symm⟩
  rw [rests.layers, rests.text, length, List.all_eq_true]
  simp only [Bool.or_eq_true, Bool.not_eq_true', decide_eq_true_eq, upper, or_assoc]
  rw [forall_or_iff, or_assoc]

theorem Reached.rests (reached : Reached layers d s) : Rests layers d s := by
  induction reached with
  | start _ => exact ⟨rfl, rfl, rfl, rfl⟩
  | call reached call rests => exact rests.call_rests call

theorem Reached.opened (reached : Reached layers d s) : d.Opened := by
  induction reached with
  | start opened => exact opened
  | call reached call opened =>
      cases call with
      | setText text => exact opened.setText text
      | _ => exact opened

/-- From every state that calls can lead to, the moves search the kept boundaries beyond the cursor
or beyond the offset that they are given, an offset is a boundary if it is one of the kept, and
what a call answers is where the cursor then stands. -/
theorem searches_of_reached (reached : Reached layers d s) :
    Direction.onward.Answers {n | n ∈ kept layers d ∧ s.current < n} s.next.1 ∧
      Direction.backward.Answers {n | n ∈ kept layers d ∧ n < s.current} s.previous.1 ∧
      (∀ offset, Direction.onward.Answers {n | n ∈ kept layers d ∧ offset < n}
        (s.following offset).1) ∧
      (∀ offset ≤ d.length, Direction.backward.Answers {n | n ∈ kept layers d ∧ n < offset}
        (s.preceding offset).1) ∧
      (∀ offset, (s.isBoundary offset).1 = true ↔ offset ∈ kept layers d) ∧
      ∀ (call : Call) (n : Nat), (call.run s).1 = some n → (call.run s).2.current = n := by
  have rests := reached.rests
  have covers := reached.opened.covers
  have sorted := covers.sorted
  rw [← rests.offsets] at sorted
  have stands : s.current ≤ d.length := by
    apply covers.inside
    rw [← rests.offsets]
    exact List.mem_append_right _ List.mem_cons_self
  refine ⟨?_, ?_, ?_, ?_, fun offset => rests.isBoundary_iff covers,
    fun call n => rests.call_stands call⟩
  · exact rests.move_answers (landed_step .onward _) (path_ahead sorted) nofun
  · exact rests.move_answers (landed_step .backward _) (path_ahead sorted) fun _ => stands
  · intro offset
    exact rests.move_answers (landed_following offset _) (path_following sorted offset) nofun
  · intro offset inside
    exact rests.move_answers (landed_preceding offset _) (path_preceding sorted offset)
      fun _ => inside

/-- A cursor on a boundary behind an abbreviation, and the least kept boundary from there. -/
theorem searches_of_reached_dropped :
    ∃ layer d s, Reached [layer] d s ∧ s.current = 4 ∧ 4 ∉ kept [layer] d ∧
      s.next.1 = some 7 ∧ IsLeast {n | n ∈ kept [layer] d ∧ s.current < n} 7 := by
  let layer : AbbreviationIndex := ⟨some ⟨#[0x32, 46, 114, 68, 0x8002], by decide⟩, none⟩
  let d := Detector.withBoundaries Detector.ends ['D', 'r', '.', ' ', 'A', ' ', 'b'] [0, 4, 7]
  let s := ((Call.isBoundary 4).run ⟨[layer], d⟩).2
  have reached : Reached [layer] d s :=
    .call (.start (.scripted _ _ (by decide) (by decide) (by decide))) (.isBoundary 4)
  obtain ⟨least, _, _, _, boundary, _⟩ := searches_of_reached reached
  refine ⟨layer, d, s, reached, by decide, ?_, by decide, ?_⟩
  · rw [← boundary 4]
    decide
  · rwa [show s.next.1 = some 7 by decide] at least

end Segmenter

end SentenceBreaks
