import SentenceBreaks.Proofs.Boundary.CursorMoves
import Mathlib.Data.List.TakeWhile

/-! A path as a search. Its offsets are those beyond a bound, in the order of the direction, so the
first one that is not dropped is the nearest of all that are kept beyond the bound. -/

namespace SentenceBreaks

namespace Direction

/-- Whether an offset is beyond a bound in a direction. -/
def Past : Direction → Nat → Nat → Prop
  | .onward, bound, n => bound < n
  | .backward, bound, n => n < bound

def IsFirst : Direction → Set Nat → Nat → Prop
  | .onward => IsLeast
  | .backward => IsGreatest

/-- What a search among some offsets answers: the first in a direction, or none if there is none. -/
def Answers (direction : Direction) (among : Set Nat) : Option Nat → Prop
  | none => among = ∅
  | some n => direction.IsFirst among n

/-- A path holds the offsets beyond a bound, in the order of the direction. -/
structure Path (direction : Direction) (bound : Nat) (offsets path : List Nat) : Prop where
  sorted : path.Pairwise direction.Past
  mem : ∀ n, n ∈ path ↔ n ∈ offsets ∧ direction.Past bound n

variable {direction : Direction} {among : Set Nat} {bound n : Nat} {offsets path : List Nat}

theorem isFirst_of_past (member : n ∈ among) (others : ∀ m ∈ among, m = n ∨ direction.Past n m) :
    direction.IsFirst among n := by
  cases direction with
  | onward =>
      refine ⟨member, fun m other => ?_⟩
      rcases others m other with rfl | past
      · exact Nat.le_refl _
      · exact Nat.le_of_lt past
  | backward =>
      refine ⟨member, fun m other => ?_⟩
      rcases others m other with rfl | past
      · exact Nat.le_refl _
      · exact Nat.le_of_lt past

/-- A search answers an offset if there is any to be found. -/
theorem Answers.exists_of_mem {answer : Option Nat} (answers : direction.Answers among answer)
    (member : n ∈ among) : ∃ first, answer = some first ∧ direction.IsFirst among first := by
  cases answer with
  | some first => exact ⟨first, rfl, answers⟩
  | none =>
      rw [show among = ∅ from answers] at member
      contradiction

/-- The first offset that is not dropped from ordered ones is the first of all that are not. -/
theorem answers_of_sorted (sorted : path.Pairwise direction.Past) (dropped : Nat → Bool) :
    direction.Answers {n | n ∈ path ∧ dropped n = false} (path.dropWhile dropped).head? := by
  have kept : ∀ n, n ∈ path ∧ dropped n = false ↔ n ∈ path.filter (fun n => !dropped n) := by
    intro n
    rw [List.mem_filter, Bool.not_eq_true']
  have sorted := sorted.filter (fun n => !dropped n)
  simp only [kept]
  rw [← List.find?_not_eq_head?_dropWhile, ← List.head?_filter]
  cases same : path.filter (fun n => !dropped n) with
  | nil => simp [Answers]
  | cons n rest =>
      rw [same] at sorted
      apply isFirst_of_past
      · exact List.mem_cons_self
      · intro m member
        rcases List.mem_cons.1 member with rfl | later
        · exact Or.inl rfl
        · exact Or.inr ((List.pairwise_cons.1 sorted).1 m later)

/-- The first offset that is not dropped from a path is the first of those kept beyond the bound. -/
theorem Path.answers (along : Path direction bound offsets path) (dropped : Nat → Bool) :
    direction.Answers {n | n ∈ offsets ∧ direction.Past bound n ∧ dropped n = false}
      (path.dropWhile dropped).head? := by
  have first := answers_of_sorted along.sorted dropped
  simp only [along.mem, and_assoc] at first
  exact first

theorem Path.isFirst_head (along : Path direction bound offsets (n :: path)) :
    direction.IsFirst {n | n ∈ offsets ∧ direction.Past bound n} n := by
  have first := along.answers fun _ => false
  rw [List.dropWhile_cons_of_neg (by simp)] at first
  simp only [and_true] at first
  exact first

theorem past_asymm (past : direction.Past bound n) : ¬direction.Past n bound := by
  cases direction with
  | onward => exact Nat.lt_asymm past
  | backward => exact Nat.lt_asymm past

theorem past_trans {m : Nat} (first : direction.Past bound m) (second : direction.Past m n) :
    direction.Past bound n := by
  cases direction with
  | onward => exact Nat.lt_trans first second
  | backward => exact Nat.lt_trans second first

theorem past_irrefl (n : Nat) : ¬direction.Past n n := fun past => past_asymm past past

/-- What is left of ordered offsets behind some of them is what is at or beyond the first of it. -/
theorem mem_drop_iff (sorted : path.Pairwise direction.Past) {count target : Nat}
    (found : path[count]? = some target) :
    n ∈ path.drop count ↔ n ∈ path ∧ (n = target ∨ direction.Past target n) := by
  obtain ⟨room, rfl⟩ := List.getElem?_eq_some_iff.1 found
  have parts := List.take_append_drop count path
  have cut := List.drop_eq_getElem_cons room
  rw [← parts] at sorted
  obtain ⟨_, sorted_rest, between⟩ := List.pairwise_append.1 sorted
  rw [cut] at sorted_rest
  constructor
  · intro member
    refine ⟨List.mem_of_mem_drop member, ?_⟩
    rw [cut] at member
    rcases List.mem_cons.1 member with same | later
    · exact Or.inl same
    · exact Or.inr ((List.pairwise_cons.1 sorted_rest).1 n later)
  · rintro ⟨member, there⟩
    rw [← parts, List.mem_append] at member
    refine member.resolve_left fun early => ?_
    have before : direction.Past n path[count] :=
      between n early path[count] (cut ▸ List.mem_cons_self)
    rcases there with rfl | past
    · exact past_irrefl _ before
    · exact past_asymm past before

end Direction

namespace Boundaries

open Direction

variable {direction : Direction} {b : Boundaries}

/-- What is ahead of a cursor is beyond the offset where it stands. -/
theorem path_ahead (sorted : b.offsets.Pairwise (· < ·)) :
    Path direction b.current b.offsets (direction.ahead b) := by
  obtain ⟨before, current, after⟩ := b
  obtain ⟨sorted_before, sorted_after, between⟩ := List.pairwise_append.1 sorted
  obtain ⟨above, sorted_after⟩ := List.pairwise_cons.1 sorted_after
  have below : ∀ n ∈ before, n < current := by
    intro n member
    exact between n (List.mem_reverse.2 member) current List.mem_cons_self
  cases direction with
  | onward =>
      refine ⟨sorted_after, fun n => ?_⟩
      simp only [ahead, Past, offsets, List.mem_append, List.mem_reverse, List.mem_cons]
      constructor
      · exact fun member => ⟨Or.inr (Or.inr member), above n member⟩
      · rintro ⟨member | rfl | member, past⟩
        · exact absurd (below n member) (Nat.lt_asymm past)
        · exact absurd past (Nat.lt_irrefl _)
        · exact member
  | backward =>
      refine ⟨List.pairwise_reverse.1 sorted_before, fun n => ?_⟩
      simp only [ahead, Past, offsets, List.mem_append, List.mem_reverse, List.mem_cons]
      constructor
      · exact fun member => ⟨Or.inl member, below n member⟩
      · rintro ⟨member | rfl | member, past⟩
        · exact member
        · exact absurd past (Nat.lt_irrefl _)
        · exact absurd (above n member) (Nat.lt_asymm past)

theorem sorted_cons_ahead (sorted : b.offsets.Pairwise (· < ·)) :
    (b.current :: direction.ahead b).Pairwise direction.Past := by
  have along : Path direction b.current b.offsets (direction.ahead b) := path_ahead sorted
  exact List.pairwise_cons.2 ⟨fun n member => ((along.mem n).1 member).2, along.sorted⟩

/-- What is ahead of a cursor from some count on is what is at or beyond the first of it. -/
theorem mem_drop_ahead_iff (sorted : b.offsets.Pairwise (· < ·)) {count target n : Nat}
    (found : (b.current :: direction.ahead b)[count]? = some target) :
    n ∈ (b.current :: direction.ahead b).drop count ↔
      n ∈ b.offsets ∧ (n = target ∨ direction.Past target n) := by
  have along : Path direction b.current b.offsets (direction.ahead b) := path_ahead sorted
  rw [mem_drop_iff (sorted_cons_ahead sorted) found]
  refine and_congr_left fun there => ?_
  rw [List.mem_cons, along.mem]
  constructor
  · rintro (rfl | ahead)
    · exact List.mem_append_right _ List.mem_cons_self
    · exact ahead.1
  · intro member
    rcases List.mem_cons.1 (List.mem_of_getElem? found) with rfl | later
    · exact there.imp id fun past => ⟨member, past⟩
    · have past := ((along.mem target).1 later).2
      rcases there with rfl | further
      · exact Or.inr ⟨member, past⟩
      · exact Or.inr ⟨member, past_trans past further⟩

theorem path_following (sorted : b.offsets.Pairwise (· < ·)) (bound : Nat) :
    Path .onward bound b.offsets (b.offsets.dropWhile (· ≤ bound)) := by
  rw [dropWhile_le_eq_filter sorted]
  exact ⟨sorted.filter _, fun n => by simp [Past]⟩

theorem path_preceding (sorted : b.offsets.Pairwise (· < ·)) (bound : Nat) :
    Path .backward bound b.offsets (b.offsets.takeWhile (· < bound)).reverse := by
  rw [takeWhile_lt_eq_filter sorted]
  exact ⟨List.pairwise_reverse.2 (sorted.filter _), fun n => by simp [Past]⟩

/-- The question for an offset leads to the next boundary from there, if there is any. -/
theorem isBoundary_stands (sorted : b.offsets.Pairwise (· < ·)) (offset : Nat) :
    (∀ n ∈ b.offsets, n < offset) ∧ (b.isBoundary offset).2 = b.last ∨
      IsLeast {n | n ∈ b.offsets ∧ offset ≤ n} (b.isBoundary offset).2.current := by
  have parts := List.takeWhile_append_dropWhile (p := (· < offset)) (l := b.offsets)
  have low : ∀ n ∈ b.offsets.takeWhile (· < offset), n < offset := fun n member => by
    simpa using List.mem_takeWhile_imp member
  have head := List.head?_dropWhile_not (· < offset) b.offsets
  have sorted_rest := sorted.sublist (List.dropWhile_sublist (· < offset))
  unfold isBoundary
  cases cut : b.offsets.dropWhile (· < offset) with
  | nil =>
      rw [cut, List.append_nil] at parts
      rw [parts] at low
      exact Or.inl ⟨low, rfl⟩
  | cons least rest =>
      rw [cut] at head sorted_rest parts
      simp only [List.head?_cons, decide_eq_false_iff_not, Nat.not_lt] at head
      refine Or.inr ⟨⟨?_, head⟩, ?_⟩
      · rw [← parts]
        exact List.mem_append_right _ List.mem_cons_self
      · rintro n ⟨member, high⟩
        rw [← parts] at member
        rcases List.mem_append.1 member with early | late
        · exact absurd (low n early) (Nat.not_lt.2 high)
        · rcases List.mem_cons.1 late with rfl | later
          · exact Nat.le_refl _
          · exact Nat.le_of_lt ((List.pairwise_cons.1 sorted_rest).1 n later)

end Boundaries

end SentenceBreaks
