import SentenceBreaks.Segmenter
import SentenceBreaks.Proofs.Boundary.DetectorRules
import SentenceBreaks.Proofs.Boundary.PathSearch

/-! The moves of a segmenter. A move of the detector goes along a path. Under a layer it goes on
along the same path up to the first boundary that the layer does not drop, and under a stack of
layers up to the first that none of them drops. -/

namespace SentenceBreaks

namespace Segmenter

open Boundaries

variable {direction : Direction} {path : List Nat} {d : Detector} {n : Nat}

/-- Where a detector has come to that goes along a path. -/
structure Leads (direction : Direction) (path : List Nat) (d : Detector)
    (result : Option Nat × Detector) : Prop where
  landed : Landed direction path d.boundaries.offsets (result.1, result.2.boundaries)
  text : result.2.text = d.text
  rule : result.2.rule = d.rule

theorem Leads.of_same {e : Detector} {result : Option Nat × Detector}
    (leads : Leads direction path e result) (offsets : e.boundaries.offsets = d.boundaries.offsets)
    (text : e.text = d.text) (rule : e.rule = d.rule) : Leads direction path d result where
  landed := by
    rw [← offsets]
    exact leads.landed
  text := leads.text.trans text
  rule := leads.rule.trans rule

theorem dropWhile_or (p q : Nat → Bool) (path : List Nat) :
    path.dropWhile (fun n => q n || p n) = (path.dropWhile p).dropWhile (fun n => q n || p n) := by
  induction path with
  | nil => rfl
  | cons n path ih =>
      by_cases dropped : p n = true
      · rw [List.dropWhile_cons_of_pos (by simp [dropped]), List.dropWhile_cons_of_pos dropped, ih]
      · rw [List.dropWhile_cons_of_neg (p := p) dropped]

/-- Repeating a step leads past all that is dropped. Each time the path ahead gets shorter, so the
fuel lasts. -/
theorem skip_leads {dropped : Detector → Nat → Bool} {p q : Nat → Bool}
    {step : Detector → Option Nat × Detector} {start : Option Nat × Detector}
    (known : ∀ e : Detector, e.text = d.text → dropped e = q)
    (steps : ∀ e : Detector, e.boundaries.offsets = d.boundaries.offsets → e.text = d.text →
      e.rule = d.rule → Leads direction ((direction.ahead e.boundaries).dropWhile p) d (step e))
    (fuel : Nat) (enough : path.length ≤ fuel)
    (leads : Leads direction (path.dropWhile p) d start) :
    Leads direction (path.dropWhile fun n => q n || p n) d (skip dropped step fuel start) := by
  induction fuel generalizing path start with
  | zero =>
      obtain rfl := List.eq_nil_of_length_eq_zero (Nat.le_zero.1 enough)
      obtain ⟨answer, after⟩ := start
      obtain rfl : answer = none := leads.landed.answer
      exact leads
  | succ fuel ih =>
      obtain ⟨answer, after⟩ := start
      rw [dropWhile_or]
      cases rest : path.dropWhile p with
      | nil =>
          rw [rest] at leads
          obtain rfl : answer = none := leads.landed.answer
          exact leads
      | cons n rest =>
          rw [rest] at leads
          obtain rfl : answer = some n := leads.landed.answer
          have kept : p n = false := by
            have head := List.head?_dropWhile_not p path
            rwa [rest] at head
          rw [skip, known after leads.text]
          by_cases out : q n = true
          · have shorter := (List.dropWhile_sublist p (l := path)).length_le
            rw [rest, List.length_cons] at shorter
            have further := steps after leads.landed.same leads.text leads.rule
            rw [leads.landed.onward, List.tail_cons] at further
            rw [if_pos out, List.dropWhile_cons_of_pos (by simp [out])]
            exact ih (Nat.le_of_succ_le_succ (Nat.le_trans shorter enough)) further
          · rw [if_neg out, List.dropWhile_cons_of_neg (by simp [out, kept])]
            exact leads

/-- Whether some layer of a stack drops an offset. -/
def dropsAny (direction : Direction) (layers : List AbbreviationIndex) (d : Detector) (n : Nat) :
    Bool :=
  layers.any fun layer => drops direction layer d n

theorem drops_of_text {e : Detector} (layer : AbbreviationIndex) (text : e.text = d.text) :
    drops direction layer e = drops direction layer d := by
  funext n
  unfold drops
  rw [text]
  cases direction with
  | onward => rw [Direction.limit, Direction.limit, Detector.length, Detector.length, text]
  | backward => rfl

theorem dropsAny_of_text {e : Detector} (layers : List AbbreviationIndex)
    (text : e.text = d.text) : dropsAny direction layers e = dropsAny direction layers d := by
  funext n
  exact List.any_congr rfl fun layer => congrFun (drops_of_text layer text) n

/-- A stack of layers leads to the first offset of the path that none of them drops. -/
theorem lead_leads (layers : List AbbreviationIndex)
    {start : Boundaries → Option Nat × Boundaries}
    (landed : Landed direction path d.boundaries.offsets (start d.boundaries)) :
    Leads direction (path.dropWhile (dropsAny direction layers d)) d
      (lead direction layers start d) := by
  induction layers generalizing d path start with
  | nil =>
      rw [show path.dropWhile (dropsAny direction [] d) = path by cases path <;> rfl]
      exact ⟨landed, rfl, rfl⟩
  | cons layer inner ih =>
      refine skip_leads (fun e text => drops_of_text layer text) ?_ d.boundaries.size
        landed.length_le (ih landed)
      intro e offsets text rule
      have further := ih (landed_step direction e.boundaries)
      rw [dropsAny_of_text inner text] at further
      exact further.of_same offsets text rule

theorem keeps_eq (n : Nat) (layers : List AbbreviationIndex) (d : Detector) :
    keeps n layers d = ((d.isBoundary n).1 && layers.all fun layer =>
      !layer.suppresses d.text n || n = 0 || d.length ≤ n, (d.isBoundary n).2) := by
  induction layers with
  | nil => simp [keeps]
  | cons layer inner ih =>
      rw [keeps, ih, List.all_cons]
      cases found : (d.isBoundary n).1 && inner.all fun layer =>
          !layer.suppresses d.text n || n = 0 || d.length ≤ n with
      | false => rw [Bool.and_left_comm, found, Bool.and_false]
      | true =>
          rw [Bool.and_left_comm, found, Bool.and_true]
          rfl

end Segmenter

end SentenceBreaks
