import SentenceBreaks.Proofs.Boundary.DetectorRules
import Mathlib.Data.List.TakeWhile

/-! Where the terminator rule finds the ends of sentences. A break follows a block of terminators
together with the closers and the white space behind it. As long as no terminator is a closer or
white space itself, no block is passed over, and whether a break follows it depends only on the
block and the characters around it. -/

namespace SentenceBreaks

open Text

namespace Terminator

variable {terminators done rest : List Char} {c : Char} {n : Nat}

/-- No block runs on across the place between two parts of a text. -/
def Outside (terminators done rest : List Char) : Prop :=
  ∀ d ∈ done.getLast?, d ∈ terminators → ∀ c ∈ rest.head?, c ∉ terminators

/-- A block of terminators, the closers and the white space behind it, and the text around them. -/
structure Block where
  front : List Char
  stops : List Char
  closers : List Char
  blanks : List Char
  after : List Char

namespace Block

variable {b : Block}

/-- What comes behind the terminators. -/
def behind (b : Block) : List Char := b.closers ++ (b.blanks ++ b.after)

/-- What has to be passed before a break. -/
def passed (b : Block) : List Char := b.stops ++ b.closers ++ b.blanks

def whole (b : Block) : List Char := b.front ++ (b.stops ++ b.behind)

/-- The offset of a break behind all that. -/
def stop (b : Block) : Nat := byteLength (b.front ++ b.passed)

/-- There are no more terminators on either side, nor closers behind them, nor white space. -/
structure Maximal (terminators : List Char) (b : Block) : Prop where
  some_stop : b.stops ≠ []
  stops : ∀ c ∈ b.stops, c ∈ terminators
  closers : ∀ c ∈ b.closers, isCloser c
  blanks : ∀ c ∈ b.blanks, isBlank c
  opens : ∀ c ∈ b.front.getLast?, c ∉ terminators
  stops_end : ∀ c ∈ b.behind.head?, c ∉ terminators
  closers_end : ∀ c ∈ (b.blanks ++ b.after).head?, ¬ isCloser c
  blanks_end : ∀ c ∈ b.after.head?, ¬ isBlank c

/-- The block is a single full stop that holds two letters together, as in "U.S". -/
def Joins (b : Block) : Prop :=
  b.stops = ['.'] ∧ (∃ c ∈ b.front.getLast?, isAlphabetic c) ∧ ∃ c ∈ b.behind.head?, isUppercase c

/-- The text goes on behind the block, and not in the same sentence. -/
def Ends (b : Block) : Prop :=
  (∃ c ∈ b.after.head?, ¬ isLowercase c ∧ ¬ isNumeric c) ∧ ¬ b.Joins

theorem whole_eq (b : Block) : b.whole = b.front ++ (b.passed ++ b.after) := by
  simp only [whole, behind, passed, List.append_assoc]

end Block

/-- The block that starts where the rest of a text does. -/
def blockAt (terminators done rest : List Char) : Block :=
  let behind := rest.dropWhile terminators.contains
  let beyond := behind.dropWhile isCloser
  ⟨done, rest.takeWhile terminators.contains, behind.takeWhile isCloser, beyond.takeWhile isBlank,
    beyond.dropWhile isBlank⟩

theorem behind_blockAt (terminators done rest : List Char) :
    (blockAt terminators done rest).behind = rest.dropWhile terminators.contains := by
  simp only [blockAt, Block.behind, List.takeWhile_append_dropWhile]

theorem whole_blockAt (terminators done rest : List Char) :
    (blockAt terminators done rest).whole = done ++ rest := by
  rw [Block.whole, behind_blockAt]
  exact congrArg (done ++ ·) List.takeWhile_append_dropWhile

theorem head_dropWhile_not {p : Char → Bool} (text : List Char) :
    ∀ c ∈ (text.dropWhile p).head?, ¬ p c := by
  intro c first
  have fails := List.head?_dropWhile_not p text
  rw [Option.mem_def.1 first] at fails
  simpa using fails

theorem maximal_blockAt (outside : Outside terminators done (c :: rest)) (stop : c ∈ terminators) :
    (blockAt terminators done (c :: rest)).Maximal terminators where
  some_stop := by
    rw [blockAt, List.takeWhile_cons_of_pos (by simpa using stop)]
    exact List.cons_ne_nil _ _
  stops d member := by simpa using List.mem_takeWhile_imp member
  closers d member := List.mem_takeWhile_imp member
  blanks d member := List.mem_takeWhile_imp member
  opens d final stops := outside d final stops c rfl stop
  stops_end d first := by
    rw [behind_blockAt] at first
    simpa using head_dropWhile_not _ d first
  closers_end d first := by
    simp only [blockAt, List.takeWhile_append_dropWhile] at first
    exact head_dropWhile_not _ d first
  blanks_end d first := head_dropWhile_not _ d first

theorem blockAt_cons (stop : c ∈ terminators) :
    blockAt terminators done (c :: rest) =
      let behind := rest.dropWhile terminators.contains
      let beyond := behind.dropWhile isCloser
      ⟨done, c :: rest.takeWhile terminators.contains, behind.takeWhile isCloser,
        beyond.takeWhile isBlank, beyond.dropWhile isBlank⟩ := by
  have found : terminators.contains c = true := by simpa using stop
  rw [blockAt, List.takeWhile_cons_of_pos found, List.dropWhile_cons_of_pos found]

/-- A text is cut in one way only into a part with some property and one that starts without it. -/
theorem cut_unique {p : Char → Bool} {first second : List Char} (all : ∀ c ∈ first, p c)
    (stops : ∀ c ∈ second.head?, ¬ p c) :
    (first ++ second).takeWhile p = first ∧ (first ++ second).dropWhile p = second := by
  rw [List.takeWhile_append_of_pos all, List.dropWhile_append_of_pos all]
  cases second with
  | nil => simp
  | cons c second =>
      have fails := stops c rfl
      rw [List.takeWhile_cons_of_neg fails, List.dropWhile_cons_of_neg fails, List.append_nil]
      exact ⟨rfl, rfl⟩

namespace Block

variable {b : Block}

theorem Maximal.eq_blockAt (maximal : b.Maximal terminators) (whole : b.whole = b.front ++ rest) :
    b = blockAt terminators b.front rest := by
  obtain rfl := List.append_cancel_left whole
  obtain ⟨stops, behind⟩ := cut_unique (p := terminators.contains) (by simpa using maximal.stops)
    (by simpa using maximal.stops_end)
  obtain ⟨closers, beyond⟩ := cut_unique maximal.closers maximal.closers_end
  obtain ⟨blanks, after⟩ := cut_unique maximal.blanks maximal.blanks_end
  unfold blockAt
  rw [stops, behind]
  dsimp only [Block.behind]
  rw [closers, beyond, blanks, after]

/-- A block that starts in the rest of a text starts at its first character or behind that. -/
theorem Maximal.front_cases (maximal : b.Maximal terminators) (whole : b.whole = done ++ c :: rest)
    (later : done <+: b.front) :
    b.front = done ∧ c ∈ terminators ∨ done ++ [c] <+: b.front := by
  obtain ⟨more, same⟩ := later
  rw [Block.whole, ← same, List.append_assoc] at whole
  have whole := List.append_cancel_left whole
  cases more with
  | nil =>
      obtain ⟨stop, stops, equal⟩ := List.exists_cons_of_ne_nil maximal.some_stop
      rw [equal] at whole
      obtain ⟨rfl, _⟩ := List.cons.inj whole
      refine Or.inl ⟨by rw [← same, List.append_nil], maximal.stops _ ?_⟩
      rw [equal]
      exact List.mem_cons_self
  | cons d more =>
      obtain ⟨rfl, _⟩ := List.cons.inj whole
      exact Or.inr ⟨more, by rw [← same, List.append_assoc, List.singleton_append]⟩

/-- A block cannot start inside of another one, nor in what is passed behind it. -/
theorem Maximal.passed_prefix (maximal : b.Maximal terminators)
    (apart : ∀ c ∈ terminators, ¬ isCloser c ∧ ¬ isBlank c) {other : Block}
    (other_maximal : other.Maximal terminators) (same : b.whole = other.whole)
    (later : other.front ++ [c] <+: b.front) : other.front ++ other.passed <+: b.front := by
  obtain ⟨more, front⟩ := later
  rw [List.append_assoc, List.singleton_append] at front
  obtain ⟨stop, stops, equal⟩ := List.exists_cons_of_ne_nil maximal.some_stop
  have starts : stop ∈ terminators := maximal.stops stop (equal ▸ List.mem_cons_self)
  rw [Block.whole, whole_eq, ← front, List.append_assoc, equal] at same
  rcases List.append_eq_append_iff.1 (List.append_cancel_left same) with
    ⟨tail, passed, same⟩ | ⟨tail, more_eq, _⟩
  · cases tail with
    | nil => exact ⟨[], by rw [List.append_nil, ← front, passed, List.append_nil]⟩
    | cons d tail =>
        obtain ⟨rfl, _⟩ := List.cons.inj same
        exfalso
        rw [Block.passed, List.append_assoc] at passed
        rcases List.append_eq_append_iff.1 passed with ⟨inner, _, behind⟩ | ⟨inner, stops_eq, _⟩
        · have member : stop ∈ other.closers ++ other.blanks := by
            rw [behind]
            exact List.mem_append_right _ List.mem_cons_self
          rcases List.mem_append.1 member with closer | blank
          · exact (apart stop starts).1 (other_maximal.closers stop closer)
          · exact (apart stop starts).2 (other_maximal.blanks stop blank)
        · -- The character in front of the block would be one of the other block's terminators.
          have last : (c :: more).getLast (List.cons_ne_nil c more) ∈ b.front.getLast? := by
            rw [← front, List.getLast?_append, List.getLast?_eq_some_getLast]
            rfl
          refine maximal.opens _ last (other_maximal.stops _ ?_)
          rw [stops_eq]
          exact List.mem_append_left _ (List.getLast_mem _)
  · rw [← front, more_eq]
    exact ⟨tail, List.append_assoc ..⟩

/-- Where a block was passed, no other one starts right inside of it. -/
theorem Maximal.outside (maximal : b.Maximal terminators)
    (apart : ∀ c ∈ terminators, ¬ isCloser c ∧ ¬ isBlank c) :
    Outside terminators (b.front ++ b.passed) b.after := by
  intro d final stop c first
  rw [Block.passed, ← List.append_assoc, ← List.append_assoc, List.append_assoc _ b.closers,
    List.getLast?_append] at final
  cases last : (b.closers ++ b.blanks).getLast? with
  | none =>
      obtain ⟨closers, blanks⟩ := List.append_eq_nil_iff.1 (List.getLast?_eq_none_iff.1 last)
      refine maximal.stops_end c ?_
      rw [Block.behind, closers, blanks]
      exact first
  | some e =>
      rw [last] at final
      obtain rfl := Option.some.inj final
      rcases List.mem_append.1 (List.mem_of_getLast? last) with closer | blank
      · exact absurd (maximal.closers e closer) (apart e stop).1
      · exact absurd (maximal.blanks e blank) (apart e stop).2

end Block

/-- A break that is still to come when some part of a text is done. -/
def Ahead (terminators done rest : List Char) (n : Nat) : Prop :=
  ∃ b : Block, b.whole = done ++ rest ∧ done <+: b.front ∧ b.Maximal terminators ∧ b.Ends ∧
    n = b.stop

/-- A character that starts no block with a break can be left behind. -/
theorem ahead_skip (unended : c ∈ terminators → ¬ (blockAt terminators done (c :: rest)).Ends) :
    Ahead terminators done (c :: rest) n ↔ Ahead terminators (done ++ [c]) rest n := by
  constructor
  · rintro ⟨b, whole, later, maximal, ends, same⟩
    rcases maximal.front_cases whole later with ⟨front, stop⟩ | further
    · rw [← front] at whole
      rw [maximal.eq_blockAt whole, front] at ends
      exact absurd ends (unended stop)
    · rw [List.append_cons] at whole
      exact ⟨b, whole, further, maximal, ends, same⟩
  · rintro ⟨b, whole, later, maximal, ends, same⟩
    rw [List.append_assoc, List.singleton_append] at whole
    exact ⟨b, whole, (List.prefix_append ..).trans later, maximal, ends, same⟩

/-- A block can be left behind as a whole, once its own break is found. -/
theorem ahead_block (apart : ∀ c ∈ terminators, ¬ isCloser c ∧ ¬ isBlank c)
    (outside : Outside terminators done (c :: rest)) (stop : c ∈ terminators) {b : Block}
    (block : blockAt terminators done (c :: rest) = b) :
    Ahead terminators done (c :: rest) n ↔
      b.Ends ∧ n = b.stop ∨ Ahead terminators (done ++ b.passed) b.after n := by
  have own := maximal_blockAt outside stop
  have text := whole_blockAt terminators done (c :: rest)
  have front : (blockAt terminators done (c :: rest)).front = done := rfl
  rw [block] at own text front
  have rest_eq : done ++ b.passed ++ b.after = done ++ c :: rest := by
    rw [← text, b.whole_eq, front, List.append_assoc]
  unfold Ahead
  rw [rest_eq]
  constructor
  · rintro ⟨other, whole, later, maximal, ends, same⟩
    rcases maximal.front_cases whole later with ⟨other_front, _⟩ | further
    · rw [← other_front] at whole
      have equal := maximal.eq_blockAt whole
      rw [other_front, block] at equal
      subst equal
      exact Or.inl ⟨ends, same⟩
    · refine Or.inr ⟨other, whole, ?_, maximal, ends, same⟩
      rw [← front] at further ⊢
      exact maximal.passed_prefix apart own (whole.trans text.symm) further
  · rintro (⟨ends, same⟩ | ⟨other, whole, later, maximal, ends, same⟩)
    · exact ⟨b, text, front ▸ List.prefix_rfl, own, ends, same⟩
    · exact ⟨other, whole, (List.prefix_append ..).trans later, maximal, ends, same⟩

theorem joins_iff (stop : c ∈ terminators) :
    (blockAt terminators done (c :: rest)).Joins ↔
      ((rest.takeWhile terminators.contains).isEmpty &&
        joinsLetters done.getLast? c (rest.dropWhile terminators.contains)) = true := by
  have found : terminators.contains c = true := by simpa using stop
  rw [Block.Joins, behind_blockAt, List.dropWhile_cons_of_pos found, blockAt_cons stop]
  simp only [List.cons.injEq, joinsLetters, Bool.and_eq_true, List.isEmpty_iff, decide_eq_true_eq,
    Option.any_eq_true, Option.mem_def]
  constructor
  · exact fun ⟨⟨dot, single⟩, letter, upper⟩ => ⟨single, ⟨dot, letter⟩, upper⟩
  · exact fun ⟨single, ⟨dot, letter⟩, upper⟩ => ⟨⟨dot, single⟩, letter, upper⟩

theorem goes_on_iff (after : List Char) :
    (∃ c ∈ after.head?, ¬ isLowercase c ∧ ¬ isNumeric c) ↔
      ¬ (after.isEmpty || after.head?.any continues) = true := by
  cases after with
  | nil => simp
  | cons c after => simp [continues]

theorem byteLength_concat (done : List Char) (c : Char) :
    byteLength (done ++ [c]) = byteLength done + c.utf8Size := by
  rw [byteLength_append, byteLength_cons]
  rfl

/-- Behind a block the search goes on with what was passed done. -/
theorem last_passed {b : Block} (some_stop : b.stops ≠ []) :
    b.passed.getLast? = (b.front ++ b.passed).getLast? := by
  have some_passed : b.passed ≠ [] := by
    rw [Block.passed, List.append_assoc]
    exact List.append_ne_nil_of_left_ne_nil some_stop _
  rw [List.getLast?_append, List.getLast?_eq_some_getLast some_passed, Option.some_or]

/-- The induction follows the search. Up to a block the text is left behind character by character,
and then the block all at once. -/
theorem mem_breaks_iff (apart : ∀ c ∈ terminators, ¬ isCloser c ∧ ¬ isBlank c)
    (before : Option Char) (offset : Nat) (rest done : List Char) (last : before = done.getLast?)
    (length : offset = byteLength done) (outside : Outside terminators done rest) :
    n ∈ breaks terminators before offset rest ↔ Ahead terminators done rest n := by
  fun_induction breaks terminators before offset rest generalizing done with
  | case1 =>
      refine iff_of_false List.not_mem_nil ?_
      rintro ⟨b, whole, ⟨more, front⟩, maximal, _⟩
      rw [Block.whole, ← front, List.append_assoc] at whole
      have nothing := List.append_eq_nil_iff.1 (List.append_cancel_left whole)
      exact maximal.some_stop (List.append_eq_nil_iff.1 nothing.2).1
  | case2 before offset c rest stop block afterBlock joins ih =>
      have stop : c ∈ terminators := by simpa using stop
      have alone : block = [] := List.isEmpty_iff.1 (Bool.and_eq_true_iff.1 joins).1
      rw [last] at joins
      rw [ahead_skip fun _ ends => ends.2 ((joins_iff stop).2 joins)]
      refine ih (done ++ [c]) List.getLast?_concat.symm (by rw [byteLength_concat, length]) ?_
      intro _ _ _ d first more
      have head := head_dropWhile_not (p := terminators.contains) rest d
      rw [← List.takeWhile_append_dropWhile (p := terminators.contains) (l := rest)] at first
      rw [show rest.takeWhile terminators.contains = [] from alone, List.nil_append] at first
      exact head first (by simpa using more)
  | case3 before offset c rest stop block afterBlock letters closers afterClosers blanks after
      passed here continued ih =>
      have stop : c ∈ terminators := by simpa using stop
      have found : blockAt terminators done (c :: rest) =
          ⟨done, c :: block, closers, blanks, after⟩ := blockAt_cons stop
      have maximal := maximal_blockAt outside stop
      rw [found] at maximal
      rw [ahead_block apart outside stop found,
        or_iff_right fun ended => (goes_on_iff after).1 ended.1.1 continued]
      refine ih _ (last_passed maximal.some_stop) ?_ (maximal.outside apart)
      rw [byteLength_append, ← length]
      rfl
  | case4 before offset c rest stop block afterBlock letters closers afterClosers blanks after
      passed here continued ih =>
      have stop : c ∈ terminators := by simpa using stop
      have found : blockAt terminators done (c :: rest) =
          ⟨done, c :: block, closers, blanks, after⟩ := blockAt_cons stop
      have maximal := maximal_blockAt outside stop
      rw [last, ← joins_iff stop, found] at letters
      rw [found] at maximal
      have place : here = byteLength (done ++ passed) := by rw [byteLength_append, ← length]
      rw [ahead_block apart outside stop found,
        and_iff_right ⟨(goes_on_iff after).2 continued, letters⟩, List.mem_cons,
        ih _ (last_passed maximal.some_stop) place (maximal.outside apart), place]
      rfl
  | case5 before offset c rest other ih =>
      have other : c ∉ terminators := by simpa using other
      rw [ahead_skip fun stop => absurd stop other]
      refine ih (done ++ [c]) List.getLast?_concat.symm (by rw [byteLength_concat, length]) ?_
      rw [Outside, List.getLast?_concat]
      rintro d ⟨rfl⟩ stop
      exact absurd stop other

/-- The boundaries of a text under the terminator rule, as long as no terminator is a closer or
white space: in ascending order, its start, its end, and wherever a block of terminators with all
closers and then all white space behind it was passed inside the text, unless the text goes on in
lowercase or with a number, or the block is a full stop between a letter and an uppercase letter. -/
theorem offsets_iff_ends (terminators text : List Char)
    (apart : ∀ c ∈ terminators, ¬ isCloser c ∧ ¬ isBlank c) :
    (Detector.terminator text terminators).boundaries.offsets.Pairwise (· < ·) ∧
      ∀ n, n ∈ (Detector.terminator text terminators).boundaries.offsets ↔
        n = 0 ∨ n = byteLength text ∨
          ∃ b : Block, b.whole = text ∧ b.Maximal terminators ∧ b.Ends ∧ n = b.stop := by
  have some_boundary : boundaries terminators text ≠ [] := List.cons_ne_nil _ _
  have offsets : (Detector.terminator text terminators).boundaries.offsets =
      Boundaries.sortedDistinct (boundaries terminators text) :=
    Boundaries.offsets_ofOffsets some_boundary
  rw [offsets]
  refine ⟨Boundaries.sorted_sortedDistinct _, fun n => ?_⟩
  have inner := @mem_breaks_iff terminators n apart none 0 text [] rfl rfl nofun
  rw [Boundaries.mem_sortedDistinct, boundaries, List.mem_append, List.mem_cons, inner,
    List.mem_singleton, or_assoc, or_comm (b := n = byteLength text)]
  simp only [Ahead, List.nil_append, List.nil_prefix, true_and]

/-- Two of the usual terminators, with a closer and white space behind them. -/
theorem offsets_iff_ends_usual :
    (∀ c ∈ usual, ¬ isCloser c ∧ ¬ isBlank c) ∧
      7 ∈ (Detector.terminator ['U', '.', 'S', '?', '!', ')', ' ', 'A']
        usual).boundaries.offsets := by
  have apart : ∀ c ∈ usual, ¬ isCloser c ∧ ¬ isBlank c :=
    List.forall_mem_cons.2 ⟨by decide, List.forall_mem_cons.2
      ⟨by decide, List.forall_mem_singleton.2 (by decide)⟩⟩
  refine ⟨apart, ((offsets_iff_ends usual _ apart).2 7).2 (Or.inr (Or.inr
    ⟨⟨['U', '.', 'S'], ['?', '!'], [')'], [' '], ['A']⟩, rfl, ?_, ⟨⟨'A', rfl, by decide⟩, ?_⟩,
      rfl⟩))⟩
  · refine ⟨List.cons_ne_nil _ _, List.forall_mem_cons.2 ⟨by decide, ?_⟩, ?_, ?_, ?_, ?_, ?_, ?_⟩
    · exact List.forall_mem_singleton.2 (by decide)
    · exact List.forall_mem_singleton.2 (by decide)
    · exact List.forall_mem_singleton.2 (by decide)
    all_goals
      rintro _ ⟨⟩
      decide
  · exact fun joins => absurd joins.1 (by decide)

end Terminator

end SentenceBreaks
