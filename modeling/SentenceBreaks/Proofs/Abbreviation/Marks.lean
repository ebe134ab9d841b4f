import SentenceBreaks.Abbreviation.Index
import SentenceBreaks.Proofs.AscendingOrder
import Mathlib.Data.List.TakeWhile
import Mathlib.Data.Set.Insert

/-! What the members of a set of abbreviations are after changes, and how they are marked. One that
begins with the opening of a member of several parts takes the way of that opening; the first such
member of several parts takes the opening along, and no other one does. -/

namespace SentenceBreaks

open Ascending

namespace Abbreviations

variable {separator : Char} {text other segment : List Char}

inductive Change
  | suppress (text : List Char)
  | unsuppress (text : List Char)

def Change.apply (abbreviations : Abbreviations) : Change → Abbreviations
  | .suppress text => (abbreviations.suppress text).2
  | .unsuppress text => (abbreviations.unsuppress text).2

/-- The texts that are left when each change puts one in or takes one out. -/
def Change.left (kept : Set (List Char)) : Change → Set (List Char)
  | .suppress text => insert text kept
  | .unsuppress text => kept \ {text}

/-- Abbreviations after some changes, with a separator of their own. -/
def changed (separator : Char) (changes : List Change) : Abbreviations :=
  changes.foldl Change.apply { empty with separator }

def left (changes : List Change) : Set (List Char) := changes.foldl Change.left ∅

/-- Members are ascending and just the texts of a set. -/
structure Holds (abbreviations : Abbreviations) (separator : Char) (kept : Set (List Char)) :
    Prop where
  separator : abbreviations.separator = separator
  sorted : Sorted id abbreviations.members
  mem : ∀ text, text ∈ abbreviations.members ↔ text ∈ kept

theorem Holds.apply {abbreviations : Abbreviations} {kept : Set (List Char)}
    (holds : abbreviations.Holds separator kept) (change : Change) :
    (change.apply abbreviations).Holds separator (change.left kept) := by
  obtain ⟨same, sorted, mem⟩ := holds
  cases change with
  | suppress text =>
      rw [Change.apply, suppress]
      cases placed : insert id text abbreviations.members with
      | none =>
          obtain ⟨other, member, equal⟩ := (insert_eq_none_iff sorted).1 placed
          have old : text ∈ kept := (show other = text from equal) ▸ (mem other).1 member
          refine ⟨same, sorted, fun other => ?_⟩
          rw [mem, Change.left, Set.insert_eq_of_mem old]
      | some members =>
          refine ⟨same, sorted_insert sorted placed, fun other => ?_⟩
          rw [(perm_insert placed).mem_iff, List.mem_cons, mem]
          rfl
  | unsuppress text =>
      rw [Change.apply, unsuppress]
      cases found : remove id text abbreviations.members with
      | none =>
          have absent := remove_eq_none sorted found
          refine ⟨same, sorted, fun other => ?_⟩
          rw [mem, Change.left, Set.mem_sdiff, Set.mem_singleton_iff, iff_self_and]
          exact fun member => absent other ((mem other).2 member)
      | some members =>
          refine ⟨same, sorted.sublist (sublist_remove found), fun other => ?_⟩
          rw [mem_remove sorted found, mem]
          rfl

theorem holds_changed (separator : Char) (changes : List Change) :
    (changed separator changes).Holds separator (left changes) := by
  have start : Holds { empty with separator } separator ∅ :=
    ⟨rfl, List.Pairwise.nil, fun text => by simp [empty]⟩
  unfold changed left
  generalize { empty with separator } = abbreviations at start ⊢
  generalize (∅ : Set (List Char)) = kept at start ⊢
  induction changes generalizing abbreviations kept with
  | nil => exact start
  | cons change later ih => exact ih _ _ (start.apply change)

/-- What goes up to the first separator of a text in which more follows it. -/
def firstSegments (separator : Char) (kept : Set (List Char)) : Set (List Char) :=
  {segment | ∃ front rest, separator ∉ front ∧ rest ≠ [] ∧ segment = front ++ [separator] ∧
    front ++ separator :: rest ∈ kept}

/-- The texts that begin with a first segment. -/
def segmented (separator : Char) (kept : Set (List Char)) : Set (List Char) :=
  {text ∈ kept | ∃ segment ∈ firstSegments separator kept, segment <+: text}

/-- A text begins with a segment that ends at its first separator. -/
def Opens (separator : Char) (segment text : List Char) : Prop :=
  segment <+: text ∧ ∃ front, separator ∉ front ∧ segment = front ++ [separator]

theorem clear_of_not_mem {front : List Char} (clear : separator ∉ front) :
    ∀ c ∈ front, (c != separator) = true := by
  intro c member
  rw [bne_iff_ne]
  rintro rfl
  exact clear member

theorem opening_append (front rest : List Char) (clear : separator ∉ front) :
    opening separator (front ++ separator :: rest) = some (front ++ [separator]) := by
  have passes := clear_of_not_mem clear
  rw [opening, List.dropWhile_append_of_pos passes, List.takeWhile_append_of_pos passes,
    List.dropWhile_cons_of_neg (by simp), List.takeWhile_cons_of_neg (by simp), List.append_nil]

theorem isMultiPart_append (front rest : List Char) (clear : separator ∉ front) :
    isMultiPart separator (front ++ separator :: rest) = true ↔ rest ≠ [] := by
  rw [isMultiPart, List.dropWhile_append_of_pos (clear_of_not_mem clear),
    List.dropWhile_cons_of_neg (by simp), decide_eq_true_eq, List.length_cons,
    Nat.lt_add_left_iff_pos, List.length_pos_iff]

theorem opening_eq_some_iff : opening separator text = some segment ↔
    Opens separator segment text := by
  constructor
  · intro opened
    have member : separator ∈ text := by
      by_contra clear
      rw [opening, List.dropWhile_eq_nil_iff.2 (clear_of_not_mem clear)] at opened
      contradiction
    obtain ⟨front, rest, rfl, clear⟩ := List.eq_append_cons_of_mem member
    rw [opening_append front rest clear] at opened
    obtain rfl := Option.some.inj opened
    exact ⟨⟨rest, by simp⟩, front, clear, rfl⟩
  · rintro ⟨⟨rest, rfl⟩, front, clear, rfl⟩
    rw [List.append_assoc, List.singleton_append]
    exact opening_append front rest clear

theorem mem_firstSegments_iff {kept : Set (List Char)} : segment ∈ firstSegments separator kept ↔
    ∃ text ∈ kept, isMultiPart separator text = true ∧ opening separator text = some segment := by
  constructor
  · rintro ⟨front, rest, clear, more, rfl, member⟩
    exact ⟨_, member, (isMultiPart_append front rest clear).2 more, opening_append front rest clear⟩
  · rintro ⟨text, member, several, opened⟩
    obtain ⟨⟨rest, rfl⟩, front, clear, rfl⟩ := opening_eq_some_iff.1 opened
    rw [List.append_assoc, List.singleton_append] at member several
    exact ⟨front, rest, clear, (isMultiPart_append front rest clear).1 several, rfl, member⟩

theorem opening_of_mem_firstSegments {kept : Set (List Char)}
    (member : segment ∈ firstSegments separator kept) (begins : segment <+: text) :
    opening separator text = some segment := by
  obtain ⟨front, _, clear, _, rfl, _⟩ := member
  exact opening_eq_some_iff.2 ⟨begins, front, clear, rfl⟩

end Abbreviations

namespace AbbreviationIndex

open Abbreviations

variable {separator : Char} {text other segment : List Char} {done members : List (List Char)}

/-- The first text of several parts that begins with a segment. -/
def firstWith (separator : Char) (segment : List Char) (texts : List (List Char)) :
    Option (List Char) :=
  texts.find? fun text => isMultiPart separator text && opening separator text = some segment

/-- The mark that a text has once some members of several parts were looked at. -/
def markAfter (separator : Char) (done : List (List Char)) (text : List Char) : Mark :=
  match opening separator text with
  | none => .whole
  | some segment =>
      match firstWith separator segment done with
      | none => .whole
      | some first => if first = text then .opens segment else .joins

theorem isPrefixOf_opening (opened : opening separator text = some segment) :
    segment.isPrefixOf other = true ↔ opening separator other = some segment := by
  obtain ⟨_, ends⟩ := opening_eq_some_iff.1 opened
  rw [List.isPrefixOf_iff_prefix, opening_eq_some_iff, Opens, and_iff_left ends]

theorem firstWith_append (segment text : List Char) (done : List (List Char)) :
    firstWith separator segment (done ++ [text]) = (firstWith separator segment done).or
      (if isMultiPart separator text && opening separator text = some segment then some text
      else none) := by
  rw [firstWith, List.find?_append, List.find?_singleton]
  rfl

theorem markAfter_some (opened : opening separator other = some segment) {first : List Char}
    (found : firstWith separator segment done = some first) :
    markAfter separator done other = if first = other then .opens segment else .joins := by
  rw [markAfter, opened]
  dsimp only
  rw [found]

theorem markAfter_none (opened : opening separator other = some segment)
    (missing : firstWith separator segment done = none) :
    markAfter separator done other = .whole := by
  rw [markAfter, opened]
  dsimp only
  rw [missing]

/-- Another member changes the mark of a text only if it is the first with the same opening. -/
theorem markAfter_append_of_ne
    (different : ∀ segment, opening separator other = some segment →
      (isMultiPart separator text && opening separator text = some segment) = false ∨
        firstWith separator segment done ≠ none) :
    markAfter separator (done ++ [text]) other = markAfter separator done other := by
  cases opened : opening separator other with
  | none =>
      rw [markAfter, markAfter, opened]
  | some segment =>
      have same : firstWith separator segment (done ++ [text]) =
          firstWith separator segment done := by
        rw [firstWith_append]
        rcases different segment opened with unmatched | found
        · rw [unmatched, if_neg (by simp), Option.or_none]
        · rw [Option.or_of_isSome (Option.isSome_iff_ne_none.2 found)]
      rw [markAfter, markAfter, opened]
      dsimp only
      rw [same]

/-- A text with another opening keeps its mark. -/
theorem behind_of_ne {again : Bool} {mark : Mark} (opened : opening separator text = some segment)
    (different : opening separator other ≠ some segment) :
    mark.behind text segment again other = mark := by
  have strange : other ≠ text := by
    rintro rfl
    exact different opened
  have apart : ¬ segment.isPrefixOf other = true := mt (isPrefixOf_opening opened).1 different
  cases mark with
  | whole => rw [Mark.behind, if_neg strange, if_neg apart]
  | opens => rfl
  | joins => rfl

/-- As long as no text of several parts took an opening along, no text that begins with it is
marked. -/
theorem any_marked_eq_false (members : List (List Char))
    (opened : opening separator text = some segment)
    (missing : firstWith separator segment done = none) :
    ((members.map fun other => (other, markAfter separator done other)).any
      fun (other, mark) => other ≠ text && segment.isPrefixOf other && mark ≠ .whole) = false := by
  rw [List.any_map, List.any_eq_false]
  intro other _ marked
  simp only [Function.comp_apply, Bool.and_eq_true, decide_eq_true_eq] at marked
  obtain ⟨⟨_, begins⟩, marked⟩ := marked
  exact marked (markAfter_none ((isPrefixOf_opening opened).1 begins) missing)

/-- A text of several parts marks all that begin with its opening if it is the first one that does,
and else they are marked already. -/
theorem markFrom_eq (members done : List (List Char))
    (opened : opening separator text = some segment) (several : isMultiPart separator text = true) :
    markFrom text segment (members.map fun other => (other, markAfter separator done other)) =
      members.map fun other => (other, markAfter separator (done ++ [text]) other) := by
  unfold markFrom
  dsimp only
  rw [List.map_map]
  refine List.map_congr_left fun other _ => congrArg (other, ·) ?_
  dsimp only
  by_cases same : opening separator other = some segment
  · cases found : firstWith separator segment done with
    | some first =>
        -- The mark was set when `first` was looked at.
        have stays : markAfter separator (done ++ [text]) other =
            markAfter separator done other := by
          refine markAfter_append_of_ne fun own own_opened => Or.inr ?_
          rw [same] at own_opened
          rw [← Option.some.inj own_opened, found]
          exact Option.some_ne_none first
        rw [stays, markAfter_some same found]
        split <;> rfl
    | none =>
        have now : firstWith separator segment (done ++ [text]) = some text := by
          rw [firstWith_append, found, if_pos (by simp [several, opened]), Option.none_or]
        rw [any_marked_eq_false members opened found, markAfter_none same found,
          markAfter_some same now, Mark.behind]
        by_cases equal : other = text
        · rw [if_pos equal, if_pos equal.symm]
          rfl
        · rw [if_neg equal, if_neg (Ne.symm equal), if_pos ((isPrefixOf_opening opened).2 same)]
  · rw [behind_of_ne opened same, markAfter_append_of_ne]
    intro own own_opened
    rw [opened, Bool.and_eq_false_iff, decide_eq_false_iff_not, Option.some.injEq]
    refine Or.inl (Or.inr fun equal => same ?_)
    rw [own_opened, equal]

theorem markMember_eq (separator : Char) (members done : List (List Char)) (text : List Char) :
    markMember separator (members.map fun other => (other, markAfter separator done other)) text =
      members.map fun other => (other, markAfter separator (done ++ [text]) other) := by
  have unmarked (single : ∀ segment, opening separator text = some segment →
      isMultiPart separator text = false) (other : List Char) :
      markAfter separator done other = markAfter separator (done ++ [text]) other := by
    rw [markAfter_append_of_ne]
    intro segment _
    refine Or.inl (Bool.and_eq_false_iff.2 ?_)
    by_cases opened : opening separator text = some segment
    · exact Or.inl (single segment opened)
    · exact Or.inr (decide_eq_false opened)
  unfold markMember
  cases opened : opening separator text with
  | none =>
      refine List.map_congr_left fun other _ => congrArg (other, ·) (unmarked ?_ other)
      simp [opened]
  | some segment =>
      dsimp only
      split
      next several => exact markFrom_eq members done opened several
      next single =>
        exact List.map_congr_left fun other _ =>
          congrArg (other, ·) (unmarked (fun _ _ => Bool.eq_false_iff.2 single) other)

theorem marks_eq (separator : Char) (members : List (List Char)) :
    marks separator members = members.map fun text => (text, markAfter separator members text) := by
  have step : ∀ (todo done : List (List Char)),
      todo.foldl (markMember separator)
        (members.map fun text => (text, markAfter separator done text)) =
      members.map fun text => (text, markAfter separator (done ++ todo) text) := by
    intro todo
    induction todo with
    | nil =>
        intro done
        rw [List.append_nil]
        rfl
    | cons text later ih =>
        intro done
        rw [List.foldl_cons, markMember_eq, ih, List.append_assoc, List.singleton_append]
  have start : (members.map fun text => (text, markAfter separator [] text)) =
      members.map (·, .whole) := by
    refine List.map_congr_left fun text _ => ?_
    unfold markAfter
    split <;> rfl
  have all := step members []
  rwa [start, List.nil_append] at all

theorem firstWith_eq_some {first : List Char}
    (found : firstWith separator segment members = some first) :
    first ∈ members ∧ isMultiPart separator first = true ∧
      opening separator first = some segment := by
  have matched := List.find?_some found
  rw [Bool.and_eq_true, decide_eq_true_eq] at matched
  exact ⟨List.mem_of_find?_eq_some found, matched⟩

theorem exists_firstWith {kept : Set (List Char)} (mem : ∀ text, text ∈ members ↔ text ∈ kept) :
    (∃ first, firstWith separator segment members = some first) ↔
      segment ∈ firstSegments separator kept := by
  rw [mem_firstSegments_iff]
  constructor
  · rintro ⟨first, found⟩
    obtain ⟨member, matched⟩ := firstWith_eq_some found
    exact ⟨first, (mem first).1 member, matched⟩
  · rintro ⟨text, member, several, opened⟩
    rw [← Option.isSome_iff_exists, firstWith, List.find?_isSome]
    exact ⟨text, (mem text).2 member, by simp [several, opened]⟩

/-- A text stays whole if it begins with no first segment. -/
theorem markAfter_eq_whole_iff {kept : Set (List Char)}
    (mem : ∀ text, text ∈ members ↔ text ∈ kept) (member : text ∈ kept) :
    markAfter separator members text = .whole ↔ text ∉ segmented separator kept := by
  constructor
  · rintro whole ⟨_, segment, taken, begins⟩
    obtain ⟨first, found⟩ := (exists_firstWith mem).2 taken
    rw [markAfter_some (opening_of_mem_firstSegments taken begins) found] at whole
    split at whole <;> contradiction
  · intro unopened
    cases opens : opening separator text with
    | none => rw [markAfter, opens]
    | some segment =>
        refine markAfter_none opens (Option.eq_none_iff_forall_ne_some.2 fun first found => ?_)
        exact unopened ⟨member, segment, (exists_firstWith mem).1 ⟨first, found⟩,
          (opening_eq_some_iff.1 opens).1⟩

/-- Just the first text of several parts with an opening takes it along. -/
theorem markAfter_eq_opens_iff :
    markAfter separator members text = .opens segment ↔
      firstWith separator segment members = some text := by
  constructor
  · intro marked
    cases opened : opening separator text with
    | none =>
        rw [markAfter, opened] at marked
        contradiction
    | some own =>
        cases found : firstWith separator own members with
        | none =>
            rw [markAfter_none opened found] at marked
            contradiction
        | some first =>
            rw [markAfter_some opened found] at marked
            split at marked
            next equal =>
              obtain rfl := Mark.opens.inj marked
              rw [found, equal]
            next => contradiction
  · intro found
    rw [markAfter_some (firstWith_eq_some found).2.2 found, if_pos rfl]

end AbbreviationIndex

end SentenceBreaks
