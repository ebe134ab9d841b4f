import SentenceBreaks.Segmenter
import Mathlib.Order.Bounds.Basic

/-! The moves of a cursor over ascending boundaries. Each move goes along a path, which is what
comes next in its direction: it answers the first offset of the path and stands there with the rest
of the path ahead, or answers none at the end. The boundaries themselves never change. -/

namespace SentenceBreaks

namespace Direction

/-- The boundaries that are ahead of a cursor, nearest first. -/
def ahead : Direction → Boundaries → List Nat
  | .onward, b => b.after
  | .backward, b => b.before

/-- The direction of a move by a count. -/
def ofCount (count : Int) : Direction := if count < 0 then .backward else .onward

end Direction

namespace Boundaries

variable {offset n : Nat} {offsets path : List Nat} {b : Boundaries} {direction : Direction}

theorem mem_insert : n ∈ insert offset offsets ↔ n = offset ∨ n ∈ offsets := by
  induction offsets with
  | nil => simp [insert]
  | cons least rest ih =>
      unfold insert
      split
      · simp
      · split
        next same => simp [same]
        next => simp [ih, or_left_comm]

theorem sorted_insert (offset : Nat) (sorted : offsets.Pairwise (· < ·)) :
    (insert offset offsets).Pairwise (· < ·) := by
  induction offsets with
  | nil => exact List.pairwise_singleton _ _
  | cons least rest ih =>
      obtain ⟨below, sorted_rest⟩ := List.pairwise_cons.1 sorted
      unfold insert
      split
      next before =>
        refine List.pairwise_cons.2 ⟨?_, sorted⟩
        intro other member
        rcases List.mem_cons.1 member with rfl | later
        · exact before
        · exact Nat.lt_trans before (below other later)
      next notBefore =>
        split
        · exact sorted
        next different =>
          refine List.pairwise_cons.2 ⟨?_, ih sorted_rest⟩
          intro other member
          rcases mem_insert.1 member with rfl | later
          · omega
          · exact below other later

theorem mem_sortedDistinct : n ∈ sortedDistinct offsets ↔ n ∈ offsets := by
  induction offsets with
  | nil => rfl
  | cons offset rest ih =>
      rw [sortedDistinct, List.foldr_cons, mem_insert, List.mem_cons]
      exact or_congr_right ih

theorem sorted_sortedDistinct (offsets : List Nat) :
    (sortedDistinct offsets).Pairwise (· < ·) := by
  induction offsets with
  | nil => exact List.Pairwise.nil
  | cons offset rest ih => exact sorted_insert offset ih

theorem offsets_ofOffsets (some_offset : offsets ≠ []) :
    (ofOffsets offsets).offsets = sortedDistinct offsets := by
  unfold ofOffsets
  cases same : sortedDistinct offsets with
  | nil =>
      obtain ⟨offset, member⟩ := List.exists_mem_of_ne_nil offsets some_offset
      rw [← mem_sortedDistinct, same] at member
      contradiction
  | cons least rest => rfl

theorem before_ofOffsets (offsets : List Nat) : (ofOffsets offsets).before = [] := by
  unfold ofOffsets
  split <;> rfl

theorem current_mem (b : Boundaries) : b.current ∈ b.offsets :=
  List.mem_append_right _ List.mem_cons_self

/-- On ascending offsets a bound cuts off just those beyond it. -/
theorem dropWhile_le_eq_filter (sorted : offsets.Pairwise (· < ·)) (bound : Nat) :
    offsets.dropWhile (· ≤ bound) = offsets.filter (bound < ·) := by
  induction offsets with
  | nil => rfl
  | cons least rest ih =>
      obtain ⟨below, sorted⟩ := List.pairwise_cons.1 sorted
      by_cases low : least ≤ bound
      · rw [List.dropWhile_cons_of_pos (by simpa using low),
          List.filter_cons_of_neg (by simpa using low), ih sorted]
      · rw [List.dropWhile_cons_of_neg (by simpa using low), List.filter_eq_self.2]
        intro other member
        rcases List.mem_cons.1 member with rfl | later
        · simpa using low
        · have := below other later
          simp only [decide_eq_true_eq]
          omega

theorem takeWhile_lt_eq_filter (sorted : offsets.Pairwise (· < ·)) (bound : Nat) :
    offsets.takeWhile (· < bound) = offsets.filter (· < bound) := by
  induction offsets with
  | nil => rfl
  | cons least rest ih =>
      obtain ⟨below, sorted⟩ := List.pairwise_cons.1 sorted
      by_cases low : least < bound
      · rw [List.takeWhile_cons_of_pos (by simpa using low),
          List.filter_cons_of_pos (by simpa using low), ih sorted]
      · rw [List.takeWhile_cons_of_neg (by simpa using low), eq_comm, List.filter_eq_nil_iff]
        intro other member
        rcases List.mem_cons.1 member with rfl | later
        · simpa using low
        · have := below other later
          simp only [decide_eq_true_eq]
          omega

/-- Where a move has come to that goes along a path. -/
structure Landed (direction : Direction) (path offsets : List Nat)
    (result : Option Nat × Boundaries) : Prop where
  answer : result.1 = path.head?
  stands : ∀ n ∈ path.head?, result.2.current = n
  onward : direction.ahead result.2 = path.tail
  same : result.2.offsets = offsets

theorem landed_step (direction : Direction) (b : Boundaries) :
    Landed direction (direction.ahead b) b.offsets (direction.step b) := by
  obtain ⟨before, current, after⟩ := b
  cases direction with
  | onward =>
      cases after with
      | nil => exact ⟨rfl, nofun, rfl, rfl⟩
      | cons nearest after => exact ⟨rfl, by simp [Direction.ahead, Direction.step, next], rfl,
          by simp [Direction.step, next, offsets]⟩
  | backward =>
      cases before with
      | nil => exact ⟨rfl, nofun, rfl, rfl⟩
      | cons nearest before => exact ⟨rfl, by simp [Direction.ahead, Direction.step, previous], rfl,
          by simp [Direction.step, previous, offsets]⟩

theorem after_last (b : Boundaries) : b.last.after = [] := by
  obtain ⟨before, current, after⟩ := b
  unfold last
  dsimp only
  induction after generalizing before current with
  | nil => rfl
  | cons nearest after ih => exact ih _ _

theorem before_first (b : Boundaries) : b.first.before = [] := by
  obtain ⟨before, current, after⟩ := b
  unfold first
  dsimp only
  induction before generalizing current after with
  | nil => rfl
  | cons nearest before ih => exact ih _ _

theorem landed_following (bound : Nat) (b : Boundaries) :
    Landed .onward (b.offsets.dropWhile (· ≤ bound)) b.offsets (b.following bound) := by
  unfold following
  cases cut : b.offsets.dropWhile (· ≤ bound) with
  | nil => exact ⟨rfl, nofun, after_last b, offsets_last b⟩
  | cons least rest =>
      refine ⟨rfl, by simp, rfl, ?_⟩
      simp only [Boundaries.offsets, List.reverse_reverse] at cut ⊢
      rw [← cut, List.takeWhile_append_dropWhile]

theorem landed_preceding (bound : Nat) (b : Boundaries) :
    Landed .backward (b.offsets.takeWhile (· < bound)).reverse b.offsets (b.preceding bound) := by
  unfold preceding
  cases cut : (b.offsets.takeWhile (· < bound)).reverse with
  | nil => exact ⟨rfl, nofun, before_first b, offsets_first b⟩
  | cons greatest rest =>
      refine ⟨rfl, by simp, rfl, ?_⟩
      rw [List.reverse_eq_iff, List.reverse_cons] at cut
      calc rest.reverse ++ greatest :: b.offsets.dropWhile (· < bound)
          = (rest.reverse ++ [greatest]) ++ b.offsets.dropWhile (· < bound) := by
            rw [List.append_assoc, List.singleton_append]
        _ = b.offsets := by rw [← cut, List.takeWhile_append_dropWhile]

/-- Walking by a count goes along what is ahead, from where so much of it is left behind. -/
theorem landed_walk_drop (direction : Direction) (count : Nat) (b : Boundaries) :
    Landed direction ((b.current :: direction.ahead b).drop count) b.offsets
      (walk direction.step count b) := by
  induction count generalizing b with
  | zero => exact ⟨rfl, by simp [walk], rfl, rfl⟩
  | succ count ih =>
      have landed := landed_step direction b
      rw [List.drop_succ_cons]
      unfold walk
      split
      next stopped moved =>
        rw [moved] at landed
        have nothing : direction.ahead b = [] := List.head?_eq_none_iff.1 landed.answer.symm
        rw [nothing, List.drop_nil]
        exact ⟨rfl, nofun, by rw [landed.onward, nothing], landed.same⟩
      next n moved stepped =>
        rw [stepped] at landed
        cases ahead : direction.ahead b with
        | nil =>
            rw [ahead] at landed
            cases landed.answer
        | cons nearest rest =>
            rw [ahead] at landed
            have further := ih moved
            rwa [landed.stands nearest rfl, landed.onward, landed.same, List.tail_cons] at further

theorem landed_nextBy_drop (count : Int) (b : Boundaries) :
    Landed (.ofCount count) ((b.current :: (Direction.ofCount count).ahead b).drop count.natAbs)
      b.offsets (b.nextBy count) := by
  unfold nextBy Direction.ofCount
  by_cases back : count < 0
  · rw [if_pos back, if_neg (by omega), show (-count).toNat = count.natAbs by omega]
    exact landed_walk_drop .backward _ b
  · rw [if_neg back, if_pos (by omega), show count.toNat = count.natAbs by omega]
    exact landed_walk_drop .onward _ b

theorem landed_nextBy (count : Int) (b : Boundaries) :
    ∃ path, Landed (if count < 0 then .backward else .onward) path b.offsets (b.nextBy count) :=
  ⟨_, landed_nextBy_drop count b⟩

/-- No path is longer than the boundaries are many. -/
theorem Landed.length_le {result : Option Nat × Boundaries}
    (landed : Landed direction path b.offsets result) : path.length ≤ b.size := by
  have total : b.size = result.2.before.length + 1 + result.2.after.length := by
    have lengths := congrArg List.length landed.same
    simp only [Boundaries.offsets, List.length_append, List.length_reverse, List.length_cons]
      at lengths
    unfold size
    omega
  have rest := congrArg List.length landed.onward
  rw [List.length_tail] at rest
  cases direction with
  | onward =>
      simp only [Direction.ahead] at rest
      omega
  | backward =>
      simp only [Direction.ahead] at rest
      omega

theorem isBoundary_iff (sorted : b.offsets.Pairwise (· < ·)) :
    (b.isBoundary n).1 = true ↔ n ∈ b.offsets := by
  have parts := List.takeWhile_append_dropWhile (p := (· < n)) (l := b.offsets)
  have low : n ∉ b.offsets.takeWhile (· < n) := by
    rw [takeWhile_lt_eq_filter sorted]
    simp
  have head := List.head?_dropWhile_not (· < n) b.offsets
  have sorted_rest := sorted.sublist (List.dropWhile_sublist (· < n))
  unfold isBoundary
  rw [← parts, List.mem_append, or_iff_right low, parts]
  cases cut : b.offsets.dropWhile (· < n) with
  | nil => simp
  | cons least rest =>
      rw [cut] at head sorted_rest
      simp only [List.head?_cons, decide_eq_false_iff_not] at head
      dsimp only
      rw [decide_eq_true_iff, List.mem_cons, eq_comm, or_iff_left]
      intro later
      exact head ((List.pairwise_cons.1 sorted_rest).1 n later)

theorem offsets_isBoundary (n : Nat) (b : Boundaries) : (b.isBoundary n).2.offsets = b.offsets := by
  unfold isBoundary
  cases cut : b.offsets.dropWhile (· < n) with
  | nil => exact offsets_last b
  | cons least rest =>
      simp only [Boundaries.offsets, List.reverse_reverse] at cut ⊢
      rw [← cut, List.takeWhile_append_dropWhile]

end Boundaries

end SentenceBreaks
