import SentenceBreaks.Proofs.Boundary.PathSearch

/-! Runs of moves. A cursor is an index into ascending offsets, and what a move answers and where it
goes is told by the offsets and the index alone: by the least or greatest offset that is sought, or
by adding a count to the index. The boundaries answer every run of moves in just this way, and never
change while it lasts. -/

namespace SentenceBreaks

namespace Boundaries

/-- The moves of a cursor, with what they are given. -/
inductive Move
  | first
  | last
  | next
  | previous
  | nextBy (count : Int)
  | following (offset : Nat)
  | preceding (offset : Nat)
  | isBoundary (offset : Nat)

inductive Answer
  | offset (answer : Option Nat)
  | verdict (answer : Bool)

def Move.run : Move → Boundaries → Answer × Boundaries
  | .first, b => (.offset (some b.first.current), b.first)
  | .last, b => (.offset (some b.last.current), b.last)
  | .next, b => (.offset b.next.1, b.next.2)
  | .previous, b => (.offset b.previous.1, b.previous.2)
  | .nextBy count, b => (.offset (b.nextBy count).1, (b.nextBy count).2)
  | .following offset, b => (.offset (b.following offset).1, (b.following offset).2)
  | .preceding offset, b => (.offset (b.preceding offset).1, (b.preceding offset).2)
  | .isBoundary offset, b => (.verdict (b.isBoundary offset).1, (b.isBoundary offset).2)

/-- The answers to some moves, one after the other, and the cursor after them. -/
def runAll : List Move → Boundaries → List Answer × Boundaries
  | [], b => ([], b)
  | move :: moves, b =>
      let (answer, moved) := move.run b
      let (answers, stopped) := runAll moves moved
      (answer :: answers, stopped)

/-- How many offsets are before the one where the cursor stands. -/
def index (b : Boundaries) : Nat := b.before.length

/-- What a move answers at an index into some offsets, and the index it goes to. -/
inductive Goes (offsets : List Nat) (index : Nat) : Move → Answer → Nat → Prop
  | first {place n : Nat} (least : IsLeast {n | n ∈ offsets} n)
      (there : offsets[place]? = some n) :
      Goes offsets index .first (.offset (some n)) place
  | last {place n : Nat} (greatest : IsGreatest {n | n ∈ offsets} n)
      (there : offsets[place]? = some n) :
      Goes offsets index .last (.offset (some n)) place
  | following {offset place n : Nat} (least : IsLeast {n | n ∈ offsets ∧ offset < n} n)
      (there : offsets[place]? = some n) :
      Goes offsets index (.following offset) (.offset (some n)) place
  | nothingAbove {offset place n : Nat} (nothing : ∀ n ∈ offsets, n ≤ offset)
      (greatest : IsGreatest {n | n ∈ offsets} n) (there : offsets[place]? = some n) :
      Goes offsets index (.following offset) (.offset none) place
  | preceding {offset place n : Nat} (greatest : IsGreatest {n | n ∈ offsets ∧ n < offset} n)
      (there : offsets[place]? = some n) :
      Goes offsets index (.preceding offset) (.offset (some n)) place
  | nothingBelow {offset place n : Nat} (nothing : ∀ n ∈ offsets, offset ≤ n)
      (least : IsLeast {n | n ∈ offsets} n) (there : offsets[place]? = some n) :
      Goes offsets index (.preceding offset) (.offset none) place
  | boundary {offset place : Nat} (there : offsets[place]? = some offset) :
      Goes offsets index (.isBoundary offset) (.verdict true) place
  | elsewhere {offset place : Nat} {answer : Answer} (missing : offset ∉ offsets)
      (goes : Goes offsets index (.following offset) answer place) :
      Goes offsets index (.isBoundary offset) (.verdict false) place
  | inside {count : Int} {place n : Nat} (sum : (place : Int) = index + count)
      (there : offsets[place]? = some n) :
      Goes offsets index (.nextBy count) (.offset (some n)) place
  | beyond {count : Int} {place n : Nat} (onward : 0 < count)
      (outside : offsets.length ≤ index + count)
      (greatest : IsGreatest {n | n ∈ offsets} n) (there : offsets[place]? = some n) :
      Goes offsets index (.nextBy count) (.offset none) place
  | before {count : Int} {place n : Nat} (backward : count < 0) (outside : index + count < 0)
      (least : IsLeast {n | n ∈ offsets} n) (there : offsets[place]? = some n) :
      Goes offsets index (.nextBy count) (.offset none) place
  | next {place : Nat} {answer : Answer} (goes : Goes offsets index (.nextBy 1) answer place) :
      Goes offsets index .next answer place
  | previous {place : Nat} {answer : Answer}
      (goes : Goes offsets index (.nextBy (-1)) answer place) :
      Goes offsets index .previous answer place

/-- What some moves answer from an index on, and the index at their end. -/
inductive GoesThrough (offsets : List Nat) : Nat → List Move → List Answer → Nat → Prop
  | done {index : Nat} : GoesThrough offsets index [] [] index
  | step {index place stop : Nat} {move : Move} {moves : List Move} {answer : Answer}
      {answers : List Answer} (goes : Goes offsets index move answer place)
      (further : GoesThrough offsets place moves answers stop) :
      GoesThrough offsets index (move :: moves) (answer :: answers) stop

variable {index place other n : Nat} {offsets : List Nat} {b : Boundaries}
  {direction : Direction} {move : Move} {answer : Answer}

/-! The index, and the offset that is there. -/

theorem index_add_after (b : Boundaries) : b.index + 1 + b.after.length = b.offsets.length := by
  unfold index offsets
  rw [List.length_append, List.length_reverse, List.length_cons]
  omega

theorem getElem?_index (b : Boundaries) : b.offsets[b.index]? = some b.current := by
  unfold index offsets
  rw [List.getElem?_append_right (by rw [List.length_reverse]), List.length_reverse, Nat.sub_self]
  rfl

theorem index_lt_length (b : Boundaries) : b.index < b.offsets.length := by
  have total := index_add_after b
  omega

theorem index_ofOffsets (offsets : List Nat) : (ofOffsets offsets).index = 0 := by
  unfold index
  rw [before_ofOffsets]
  rfl

/-- A cursor with given offsets is at the one where it stands. -/
theorem getElem?_index_of_same (same : b.offsets = offsets) (stands : b.current = n) :
    offsets[b.index]? = some n := by
  rw [← same, ← stands]
  exact getElem?_index b

/-! The offsets that a cursor starts with. -/

theorem sorted_ofOffsets (offsets : List Nat) : (ofOffsets offsets).offsets.Pairwise (· < ·) := by
  by_cases empty : offsets = []
  · rw [empty]
    exact List.pairwise_singleton _ _
  · rw [offsets_ofOffsets empty]
    exact sorted_sortedDistinct offsets

theorem mem_ofOffsets :
    n ∈ (ofOffsets offsets).offsets ↔ n ∈ offsets ∨ offsets = [] ∧ n = 0 := by
  by_cases empty : offsets = []
  · rw [empty]
    simp [ofOffsets, sortedDistinct, Boundaries.offsets]
  · rw [offsets_ofOffsets empty, mem_sortedDistinct]
    simp [empty]

/-! A move goes to one place only, and answers one thing. -/

theorem place_unique (sorted : offsets.Pairwise (· < ·)) (there : offsets[place]? = some n)
    (again : offsets[other]? = some n) : place = other := by
  have inside : place < offsets.length := (List.getElem?_eq_some_iff.1 there).1
  have nodup : offsets.Nodup := sorted.imp Nat.ne_of_lt
  exact (List.getElem?_inj inside nodup).1 (there.trans again.symm)

theorem goes_unique (sorted : offsets.Pairwise (· < ·)) {others : Answer}
    (goes : Goes offsets index move answer place) (again : Goes offsets index move others other) :
    answer = others ∧ place = other := by
  induction goes generalizing others other with
  | first least there =>
      cases again with
      | first least' there' =>
          cases least.unique least'
          exact ⟨rfl, place_unique sorted there there'⟩
  | last greatest there =>
      cases again with
      | last greatest' there' =>
          cases greatest.unique greatest'
          exact ⟨rfl, place_unique sorted there there'⟩
  | following least there =>
      cases again with
      | following least' there' =>
          cases least.unique least'
          exact ⟨rfl, place_unique sorted there there'⟩
      | nothingAbove nothing => exact absurd (nothing _ least.1.1) (Nat.not_le.2 least.1.2)
  | nothingAbove nothing greatest there =>
      cases again with
      | following least => exact absurd (nothing _ least.1.1) (Nat.not_le.2 least.1.2)
      | nothingAbove _ greatest' there' =>
          cases greatest.unique greatest'
          exact ⟨rfl, place_unique sorted there there'⟩
  | preceding greatest there =>
      cases again with
      | preceding greatest' there' =>
          cases greatest.unique greatest'
          exact ⟨rfl, place_unique sorted there there'⟩
      | nothingBelow nothing =>
          exact absurd (nothing _ greatest.1.1) (Nat.not_le.2 greatest.1.2)
  | nothingBelow nothing least there =>
      cases again with
      | preceding greatest => exact absurd (nothing _ greatest.1.1) (Nat.not_le.2 greatest.1.2)
      | nothingBelow _ least' there' =>
          cases least.unique least'
          exact ⟨rfl, place_unique sorted there there'⟩
  | boundary there =>
      cases again with
      | boundary there' => exact ⟨rfl, place_unique sorted there there'⟩
      | elsewhere missing => exact absurd (List.mem_of_getElem? there) missing
  | elsewhere missing _ same =>
      cases again with
      | boundary there => exact absurd (List.mem_of_getElem? there) missing
      | elsewhere _ goes' => exact ⟨rfl, (same goes').2⟩
  | inside sum there =>
      have room := (List.getElem?_eq_some_iff.1 there).1
      cases again with
      | inside sum' there' =>
          have same := Int.ofNat_inj.1 (sum.trans sum'.symm)
          subst same
          cases there.symm.trans there'
          exact ⟨rfl, rfl⟩
      | beyond _ outside => omega
      | before _ outside => omega
  | beyond onward outside greatest there =>
      cases again with
      | inside sum there' =>
          have room := (List.getElem?_eq_some_iff.1 there').1
          omega
      | beyond _ _ greatest' there' =>
          cases greatest.unique greatest'
          exact ⟨rfl, place_unique sorted there there'⟩
      | before backward => omega
  | before backward outside least there =>
      cases again with
      | inside sum there' => omega
      | beyond onward => omega
      | before _ _ least' there' =>
          cases least.unique least'
          exact ⟨rfl, place_unique sorted there there'⟩
  | next _ same =>
      cases again with
      | next goes' => exact same goes'
  | previous _ same =>
      cases again with
      | previous goes' => exact same goes'

/-! Where the boundaries go. -/

theorem not_past_of_nothing (direction : Direction) (sorted : b.offsets.Pairwise (· < ·))
    (nothing : direction.ahead b = []) : ∀ n ∈ b.offsets, ¬direction.Past b.current n := by
  have along : direction.Path b.current b.offsets _ := path_ahead sorted
  rw [nothing] at along
  intro n member past
  exact List.not_mem_nil ((along.mem n).2 ⟨member, past⟩)

theorem isGreatest_of_nothing (sorted : offsets.Pairwise (· < ·)) (same : b.offsets = offsets)
    (nothing : b.after = []) : IsGreatest {n | n ∈ offsets} b.current := by
  subst same
  refine ⟨current_mem b, fun n member => Nat.not_lt.1 ?_⟩
  exact not_past_of_nothing .onward sorted nothing n member

theorem isLeast_of_nothing (sorted : offsets.Pairwise (· < ·)) (same : b.offsets = offsets)
    (nothing : b.before = []) : IsLeast {n | n ∈ offsets} b.current := by
  subst same
  refine ⟨current_mem b, fun n member => Nat.not_lt.1 ?_⟩
  exact not_past_of_nothing .backward sorted nothing n member

theorem goes_first (sorted : b.offsets.Pairwise (· < ·)) :
    Goes b.offsets b.index .first (.offset (some b.first.current)) b.first.index := by
  apply Goes.first
  · exact isLeast_of_nothing sorted (offsets_first b) (before_first b)
  · exact getElem?_index_of_same (offsets_first b) rfl

theorem goes_last (sorted : b.offsets.Pairwise (· < ·)) :
    Goes b.offsets b.index .last (.offset (some b.last.current)) b.last.index := by
  apply Goes.last
  · exact isGreatest_of_nothing sorted (offsets_last b) (after_last b)
  · exact getElem?_index_of_same (offsets_last b) rfl

/-- A search along the offsets beyond a bound finds the first of them, or none is beyond it. -/
theorem landed_path {path : List Nat} {bound : Nat} {result : Option Nat × Boundaries}
    (along : direction.Path bound b.offsets path)
    (landed : Landed direction path b.offsets result) :
    result.1 = none ∧ (∀ n ∈ b.offsets, ¬direction.Past bound n) ∧
        direction.ahead result.2 = [] ∨
      result.1 = some result.2.current ∧
        direction.IsFirst {n | n ∈ b.offsets ∧ direction.Past bound n} result.2.current := by
  cases path with
  | nil =>
      refine Or.inl ⟨landed.answer, ?_, landed.onward⟩
      intro n member past
      exact List.not_mem_nil ((along.mem n).2 ⟨member, past⟩)
  | cons n rest =>
      rw [landed.stands n rfl]
      exact Or.inr ⟨landed.answer, along.isFirst_head⟩

theorem goes_following (sorted : b.offsets.Pairwise (· < ·)) (bound : Nat) :
    Goes b.offsets b.index (.following bound) (.offset (b.following bound).1)
      (b.following bound).2.index := by
  have landed := landed_following bound b
  have there := getElem?_index_of_same landed.same rfl
  rcases landed_path (path_following sorted bound) landed with
    ⟨answer, low, nothing⟩ | ⟨answer, least⟩
  · rw [answer]
    apply Goes.nothingAbove _ _ there
    · exact fun n member => Nat.not_lt.1 (low n member)
    · exact isGreatest_of_nothing sorted landed.same nothing
  · rw [answer]
    exact Goes.following least there

theorem goes_preceding (sorted : b.offsets.Pairwise (· < ·)) (bound : Nat) :
    Goes b.offsets b.index (.preceding bound) (.offset (b.preceding bound).1)
      (b.preceding bound).2.index := by
  have landed := landed_preceding bound b
  have there := getElem?_index_of_same landed.same rfl
  rcases landed_path (path_preceding sorted bound) landed with
    ⟨answer, high, nothing⟩ | ⟨answer, greatest⟩
  · rw [answer]
    apply Goes.nothingBelow _ _ there
    · exact fun n member => Nat.not_lt.1 (high n member)
    · exact isLeast_of_nothing sorted landed.same nothing
  · rw [answer]
    exact Goes.preceding greatest there

theorem goes_isBoundary (sorted : b.offsets.Pairwise (· < ·)) (offset : Nat) :
    Goes b.offsets b.index (.isBoundary offset) (.verdict (b.isBoundary offset).1)
      (b.isBoundary offset).2.index := by
  have same := offsets_isBoundary offset b
  have stands := isBoundary_stands sorted offset
  by_cases listed : offset ∈ b.offsets
  · rw [(isBoundary_iff sorted).2 listed]
    apply Goes.boundary
    apply getElem?_index_of_same same
    rcases stands with ⟨below, _⟩ | least
    · exact absurd (below offset listed) (Nat.lt_irrefl offset)
    · exact Nat.le_antisymm (least.2 ⟨listed, Nat.le_refl offset⟩) least.1.2
  · rw [Bool.eq_false_iff.2 (mt (isBoundary_iff sorted).1 listed)]
    rcases stands with ⟨below, last⟩ | least
    · rw [last]
      apply Goes.elsewhere listed
      apply Goes.nothingAbove
      · exact fun n member => Nat.le_of_lt (below n member)
      · exact isGreatest_of_nothing sorted (offsets_last b) (after_last b)
      · exact getElem?_index_of_same (offsets_last b) rfl
    · apply Goes.elsewhere listed
      apply Goes.following
      · refine ⟨⟨least.1.1, Nat.lt_of_le_of_ne least.1.2 ?_⟩, ?_⟩
        · intro standing
          exact listed (standing ▸ least.1.1)
        · rintro n ⟨member, above⟩
          exact least.2 ⟨member, Nat.le_of_lt above⟩
      · exact getElem?_index_of_same same rfl

/-- A walk by a count uses up what is ahead, or leaves so much less of it. -/
theorem landed_drop {result : Option Nat × Boundaries} {count : Nat}
    (landed : Landed direction ((b.current :: direction.ahead b).drop count) b.offsets result) :
    (direction.ahead b).length < count ∧ result.1 = none ∧ direction.ahead result.2 = [] ∨
      result.1 = some result.2.current ∧
        (direction.ahead result.2).length + count = (direction.ahead b).length := by
  cases path : (b.current :: direction.ahead b).drop count with
  | nil =>
      rw [path] at landed
      exact Or.inl ⟨List.drop_eq_nil_iff.1 path, landed.answer, landed.onward⟩
  | cons n rest =>
      rw [path] at landed
      have left := congrArg List.length path
      rw [List.length_drop, List.length_cons, List.length_cons] at left
      refine Or.inr ⟨?_, ?_⟩
      · rw [landed.answer, landed.stands n rfl]
        rfl
      · rw [landed.onward, List.tail_cons]
        omega

theorem goes_nextBy (sorted : b.offsets.Pairwise (· < ·)) (count : Int) :
    Goes b.offsets b.index (.nextBy count) (.offset (b.nextBy count).1)
      (b.nextBy count).2.index := by
  have landed := landed_nextBy_drop count b
  have there := getElem?_index_of_same landed.same rfl
  have total := index_add_after b
  have moved := index_add_after (b.nextBy count).2
  rw [landed.same] at moved
  by_cases backward : count < 0
  · rw [show Direction.ofCount count = .backward from if_pos backward] at landed
    rcases landed_drop landed with ⟨spent, answer, nothing⟩ | ⟨answer, left⟩
    · change b.index < count.natAbs at spent
      rw [answer]
      apply Goes.before backward _ _ there
      · omega
      · exact isLeast_of_nothing sorted landed.same nothing
    · change (b.nextBy count).2.index + count.natAbs = b.index at left
      rw [answer]
      apply Goes.inside _ there
      omega
  · rw [show Direction.ofCount count = .onward from if_neg backward] at landed
    rcases landed_drop landed with ⟨spent, answer, nothing⟩ | ⟨answer, left⟩
    · change b.after.length < count.natAbs at spent
      rw [answer]
      apply Goes.beyond _ _ _ there
      · omega
      · omega
      · exact isGreatest_of_nothing sorted landed.same nothing
    · change (b.nextBy count).2.after.length + count.natAbs = b.after.length at left
      rw [answer]
      apply Goes.inside _ there
      omega

theorem nextBy_one (b : Boundaries) : b.nextBy 1 = b.next := by
  obtain ⟨before, current, after⟩ := b
  cases after with
  | nil => rfl
  | cons nearest after => rfl

theorem nextBy_neg_one (b : Boundaries) : b.nextBy (-1) = b.previous := by
  obtain ⟨before, current, after⟩ := b
  cases before with
  | nil => rfl
  | cons nearest before => rfl

/-- Every move goes as the offsets and the index tell. -/
theorem goes_run (sorted : b.offsets.Pairwise (· < ·)) (move : Move) :
    Goes b.offsets b.index move (move.run b).1 (move.run b).2.index := by
  cases move with
  | first => exact goes_first sorted
  | last => exact goes_last sorted
  | next =>
      apply Goes.next
      rw [Move.run, ← nextBy_one]
      exact goes_nextBy sorted 1
  | previous =>
      apply Goes.previous
      rw [Move.run, ← nextBy_neg_one]
      exact goes_nextBy sorted (-1)
  | nextBy count => exact goes_nextBy sorted count
  | following bound => exact goes_following sorted bound
  | preceding bound => exact goes_preceding sorted bound
  | isBoundary offset => exact goes_isBoundary sorted offset

theorem offsets_run (move : Move) (b : Boundaries) : (move.run b).2.offsets = b.offsets := by
  cases move with
  | first => exact offsets_first b
  | last => exact offsets_last b
  | next => exact (landed_step .onward b).same
  | previous => exact (landed_step .backward b).same
  | nextBy count => exact (landed_nextBy_drop count b).same
  | following bound => exact (landed_following bound b).same
  | preceding bound => exact (landed_preceding bound b).same
  | isBoundary offset => exact offsets_isBoundary offset b

theorem offsets_runAll (moves : List Move) (b : Boundaries) :
    (runAll moves b).2.offsets = b.offsets := by
  induction moves generalizing b with
  | nil => rfl
  | cons move moves ih => exact (ih (move.run b).2).trans (offsets_run move b)

/-- A run goes as its moves do, and in no other way. -/
theorem goesThrough_iff (sorted : b.offsets.Pairwise (· < ·)) (moves : List Move)
    {answers : List Answer} : GoesThrough b.offsets b.index moves answers place ↔
      (runAll moves b).1 = answers ∧ (runAll moves b).2.index = place := by
  induction moves generalizing b answers with
  | nil =>
      constructor
      · rintro ⟨⟩
        exact ⟨rfl, rfl⟩
      · rintro ⟨rfl, rfl⟩
        exact .done
  | cons move moves ih =>
      have same := offsets_run move b
      have further := @ih (move.run b).2 (same.symm ▸ sorted)
      rw [same] at further
      constructor
      · intro through
        cases through with
        | step goes rest =>
            obtain ⟨rfl, rfl⟩ := goes_unique sorted goes (goes_run sorted move)
            obtain ⟨rfl, rfl⟩ := further.1 rest
            exact ⟨rfl, rfl⟩
      · rintro ⟨rfl, rfl⟩
        exact .step (goes_run sorted move) (further.2 ⟨rfl, rfl⟩)

/-- After any run of moves the offsets are those given at first, ascending, each once, or 0 alone
when none was given. The index is inside them, at the offset where the cursor stands. The answers
and the index are those of the reference. -/
theorem runAll_follows_reference (given : List Nat) (moves : List Move) :
    let (answers, b) := runAll moves (ofOffsets given)
    b.offsets.Pairwise (· < ·) ∧
      (∀ n, n ∈ b.offsets ↔ n ∈ given ∨ given = [] ∧ n = 0) ∧
      b.index < b.offsets.length ∧ b.offsets[b.index]? = some b.current ∧
      ∀ (others : List Answer) (place : Nat),
        GoesThrough b.offsets 0 moves others place ↔ answers = others ∧ b.index = place := by
  have same := offsets_runAll moves (ofOffsets given)
  have sorted := sorted_ofOffsets given
  dsimp only
  refine ⟨?_, ?_, index_lt_length _, getElem?_index _, ?_⟩
  · rwa [same]
  · intro n
    rw [same]
    exact mem_ofOffsets
  · intro others place
    rw [same, ← index_ofOffsets given]
    exact goesThrough_iff sorted moves

end Boundaries

end SentenceBreaks
