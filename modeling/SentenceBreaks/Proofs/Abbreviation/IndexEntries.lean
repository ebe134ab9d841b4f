import SentenceBreaks.Proofs.Abbreviation.Marks
import SentenceBreaks.Proofs.Trie.ListingOrder
import Mathlib.Data.List.Nodup
import Mathlib.Data.Set.Image

/-! What the two tries of a set of abbreviations hold. The additions put each abbreviation into one
trie, and each first segment into the backward one, and no sequence twice. So only the length of an
abbreviation can make the tries fail. -/

namespace SentenceBreaks.AbbreviationIndex

open Abbreviations Text Trie

variable {separator : Char} {text segment : List Char} {members : List (List Char)}
  {kept : Set (List Char)} {row : Entry}

def wholeRow (text : List Char) : Entry := (Utf16.ofChars text.reverse, wholeValue)

def openingRow (segment : List Char) : Entry := (Utf16.ofChars segment.reverse, openingValue)

def onwardRow (text : List Char) : Entry := (Utf16.ofChars text, wholeValue)

def Addition.backwardRow : Addition → Option Entry
  | .backward text value => some (Utf16.ofChars text.reverse, value)
  | .onward _ => none

def Addition.onwardRow : Addition → Option Entry
  | .backward _ _ => none
  | .onward text => some (AbbreviationIndex.onwardRow text)

def Mark.backwardRow (text : List Char) : Mark → Option Entry
  | .whole => some (wholeRow text)
  | .opens segment => some (openingRow segment)
  | .joins => none

def Mark.onwardRow (text : List Char) : Mark → Option Entry
  | .whole => none
  | .opens _ => some (AbbreviationIndex.onwardRow text)
  | .joins => some (AbbreviationIndex.onwardRow text)

/-- The rows that some members put into the backward trie. -/
def backwardRows (separator : Char) (members : List (List Char)) : List Entry :=
  (additions separator members).filterMap Addition.backwardRow

def onwardRows (separator : Char) (members : List (List Char)) : List Entry :=
  (additions separator members).filterMap Addition.onwardRow

/-- What each text adds is told by its mark. -/
theorem filterMap_additions {ofAddition : Addition → Option Entry}
    {ofMark : List Char → Mark → Option Entry}
    (same : ∀ text mark, (mark.additions text).filterMap ofAddition = (ofMark text mark).toList)
    (separator : Char) (members : List (List Char)) :
    (additions separator members).filterMap ofAddition =
      members.filterMap fun text => ofMark text (markAfter separator members text) := by
  rw [additions, marks_eq]
  generalize markAfter separator members = markOf
  induction members with
  | nil => rfl
  | cons text rest ih =>
      rw [List.map_cons, List.flatMap_cons, List.filterMap_append, ih, same, List.filterMap_cons]
      cases ofMark text (markOf text) <;> rfl

theorem backwardRows_eq (separator : Char) (members : List (List Char)) :
    backwardRows separator members =
      members.filterMap fun text => (markAfter separator members text).backwardRow text :=
  filterMap_additions (fun _ mark => by cases mark <;> rfl) separator members

theorem onwardRows_eq (separator : Char) (members : List (List Char)) :
    onwardRows separator members =
      members.filterMap fun text => (markAfter separator members text).onwardRow text :=
  filterMap_additions (fun _ mark => by cases mark <;> rfl) separator members

/-- A text puts itself into the backward trie, or the segment that it takes along. -/
theorem backwardRow_cases
    (added : (markAfter separator members text).backwardRow text = some row) :
    (markAfter separator members text = .whole ∧ row = wholeRow text) ∨
      ∃ segment, firstWith separator segment members = some text ∧ row = openingRow segment := by
  cases marked : markAfter separator members text with
  | whole =>
      rw [marked] at added
      exact Or.inl ⟨rfl, (Option.some.inj added).symm⟩
  | opens segment =>
      rw [marked] at added
      exact Or.inr ⟨segment, markAfter_eq_opens_iff.1 marked, (Option.some.inj added).symm⟩
  | joins =>
      rw [marked] at added
      contradiction

theorem onwardRow_eq_some_iff : (markAfter separator members text).onwardRow text = some row ↔
    markAfter separator members text ≠ .whole ∧ onwardRow text = row := by
  cases markAfter separator members text <;> simp [Mark.onwardRow]

/-! Which rows there are. -/

/-- In reverse, the texts that begin with no first segment, and the first segments. -/
def backwardSet (separator : Char) (kept : Set (List Char)) : Set Entry :=
  wholeRow '' (kept \ segmented separator kept) ∪ openingRow '' firstSegments separator kept

def onwardSet (separator : Char) (kept : Set (List Char)) : Set Entry :=
  onwardRow '' segmented separator kept

theorem mem_backwardRows (mem : ∀ text, text ∈ members ↔ text ∈ kept) :
    row ∈ backwardRows separator members ↔ row ∈ backwardSet separator kept := by
  rw [backwardRows_eq, List.mem_filterMap]
  constructor
  · rintro ⟨text, member, added⟩
    rcases backwardRow_cases added with ⟨whole, rfl⟩ | ⟨segment, found, rfl⟩
    · rw [mem] at member
      exact Or.inl ⟨text, ⟨member, (markAfter_eq_whole_iff mem member).1 whole⟩, rfl⟩
    · exact Or.inr ⟨segment, (exists_firstWith mem).1 ⟨text, found⟩, rfl⟩
  · rintro (⟨text, ⟨member, unopened⟩, rfl⟩ | ⟨segment, member, rfl⟩)
    · refine ⟨text, (mem text).2 member, ?_⟩
      rw [(markAfter_eq_whole_iff mem member).2 unopened, Mark.backwardRow]
    · obtain ⟨first, found⟩ := (exists_firstWith mem).2 member
      refine ⟨first, (firstWith_eq_some found).1, ?_⟩
      rw [markAfter_eq_opens_iff.2 found, Mark.backwardRow]

theorem mem_onwardRows (mem : ∀ text, text ∈ members ↔ text ∈ kept) :
    row ∈ onwardRows separator members ↔ row ∈ onwardSet separator kept := by
  rw [onwardRows_eq, List.mem_filterMap]
  simp only [onwardRow_eq_some_iff, mem]
  constructor
  · rintro ⟨text, member, marked, rfl⟩
    refine ⟨text, ?_, rfl⟩
    by_contra unopened
    exact marked ((markAfter_eq_whole_iff mem member).2 unopened)
  · rintro ⟨text, member, rfl⟩
    exact ⟨text, member.1, fun whole =>
      (markAfter_eq_whole_iff mem member.1).1 whole member, rfl⟩

/-! No sequence comes twice. -/

/-- A text that is a first segment is not whole, even if it was added for its own sake too. -/
theorem not_whole_of_firstWith {first : List Char}
    (found : firstWith separator segment members = some first) :
    markAfter separator members segment ≠ .whole := by
  obtain ⟨_, ends⟩ := opening_eq_some_iff.1 (firstWith_eq_some found).2.2
  rw [markAfter_some (opening_eq_some_iff.2 ⟨List.prefix_rfl, ends⟩) found]
  split <;> simp

theorem text_of_ofChars_reverse {other : List Char}
    (same : Utf16.ofChars text.reverse = Utf16.ofChars other.reverse) : text = other :=
  List.reverse_injective (Utf16.ofChars_injective same)

theorem nodup_backwardRows (distinct : members.Nodup) :
    (keys (backwardRows separator members)).Nodup := by
  rw [keys, backwardRows_eq, List.map_filterMap]
  refine distinct.filterMap fun text other key keyed other_keyed => ?_
  obtain ⟨row, added, rfl⟩ := Option.map_eq_some_iff.1 keyed
  obtain ⟨other_row, other_added, same⟩ := Option.map_eq_some_iff.1 other_keyed
  -- A whole text is no segment that was taken along, and a segment is taken along from one text.
  rcases backwardRow_cases added with ⟨whole, rfl⟩ | ⟨segment, found, rfl⟩
  · rcases backwardRow_cases other_added with ⟨_, rfl⟩ | ⟨segment, found, rfl⟩
    · exact (text_of_ofChars_reverse same).symm
    · obtain rfl := text_of_ofChars_reverse same
      exact absurd whole (not_whole_of_firstWith found)
  · rcases backwardRow_cases other_added with ⟨whole, rfl⟩ | ⟨other_segment, other_found, rfl⟩
    · obtain rfl := text_of_ofChars_reverse same
      exact absurd whole (not_whole_of_firstWith found)
    · obtain rfl := text_of_ofChars_reverse same
      exact Option.some.inj (found.symm.trans other_found)

theorem nodup_onwardRows (distinct : members.Nodup) :
    (keys (onwardRows separator members)).Nodup := by
  rw [keys, onwardRows_eq, List.map_filterMap]
  refine distinct.filterMap fun text other key keyed other_keyed => ?_
  obtain ⟨row, added, rfl⟩ := Option.map_eq_some_iff.1 keyed
  obtain ⟨other_row, other_added, same⟩ := Option.map_eq_some_iff.1 other_keyed
  obtain ⟨_, rfl⟩ := onwardRow_eq_some_iff.1 added
  obtain ⟨_, rfl⟩ := onwardRow_eq_some_iff.1 other_added
  exact (Utf16.ofChars_injective same).symm

/-! Lengths. A segment is no longer than the text it is taken from, and a reversed text has as many
units as the text. -/

theorem length_ofChars_reverse (text : List Char) :
    (Utf16.ofChars text.reverse).length = (Utf16.ofChars text).length :=
  ((List.reverse_perm text).flatMap_right Utf16.units).length_eq

theorem length_ofChars_segment (member : segment ∈ firstSegments separator kept) :
    ∃ text ∈ kept, (Utf16.ofChars segment).length ≤ (Utf16.ofChars text).length := by
  obtain ⟨front, rest, _, _, rfl, member⟩ := member
  refine ⟨_, member, ?_⟩
  rw [List.append_cons front separator rest, Utf16.ofChars_append _ rest, List.length_append]
  exact Nat.le_add_right ..

/-- Every row is as short as some text, and every text makes a row of its own length. -/
theorem rows_short_iff (separator : Char) (kept : Set (List Char)) :
    (∀ row ∈ backwardSet separator kept ∪ onwardSet separator kept, row.1.length ≤ lengthLimit) ↔
      ∀ text ∈ kept, (Utf16.ofChars text).length ≤ lengthLimit := by
  constructor
  · intro short text member
    by_cases opens : text ∈ segmented separator kept
    · exact short _ (Or.inr ⟨text, opens, rfl⟩)
    · rw [← length_ofChars_reverse]
      exact short _ (Or.inl (Or.inl ⟨text, ⟨member, opens⟩, rfl⟩))
  · rintro short _ ((⟨text, ⟨member, _⟩, rfl⟩ | ⟨segment, member, rfl⟩) | ⟨text, ⟨member, _⟩, rfl⟩)
    · rw [wholeRow, length_ofChars_reverse]
      exact short text member
    · obtain ⟨text, kept_text, longer⟩ := length_ofChars_segment member
      rw [openingRow, length_ofChars_reverse]
      exact Nat.le_trans longer (short text kept_text)
    · exact short text member

/-! From the additions to the tries. -/

/-- The two drafts take their rows apart from each other, up to the first fault of either. -/
theorem foldlM_add (additions : List Addition) (drafts : Drafts) :
    match additions.foldlM Drafts.add drafts with
    | .ok done =>
        drafts.backward.addAll (additions.filterMap Addition.backwardRow) = .ok done.backward ∧
          drafts.onward.addAll (additions.filterMap Addition.onwardRow) = .ok done.onward
    | .error fault =>
        drafts.backward.addAll (additions.filterMap Addition.backwardRow) = .error fault ∨
          drafts.onward.addAll (additions.filterMap Addition.onwardRow) = .error fault := by
  induction additions generalizing drafts with
  | nil => exact ⟨rfl, rfl⟩
  | cons addition rest ih =>
      rw [List.foldlM_cons]
      cases addition with
      | backward text value =>
          rw [List.filterMap_cons_some (f := Addition.backwardRow) rfl,
            List.filterMap_cons_none (f := Addition.onwardRow) rfl, Drafts.add]
          cases added : drafts.backward.add (Utf16.ofChars text.reverse) value with
          | error fault => exact Or.inl (Draft.addAll_cons_of_error added _)
          | ok next =>
              rw [Draft.addAll_cons_of_ok added]
              exact ih { drafts with backward := next }
      | onward text =>
          rw [List.filterMap_cons_none (f := Addition.backwardRow) rfl,
            List.filterMap_cons_some (f := Addition.onwardRow) rfl, Drafts.add]
          cases added : drafts.onward.add (Utf16.ofChars text) wholeValue with
          | error fault => exact Or.inr (Draft.addAll_cons_of_error added _)
          | ok next =>
              rw [Draft.addAll_cons_of_ok added]
              exact ih { drafts with onward := next }

/-- A trie of just some rows, which is missing if there are none. Its listing gives each of them
once, as long as its units can say its jumps. -/
def Stores (stored : Option PackedTrie) (rows : Set Entry) : Prop :=
  ∃ list : List Entry, (keys list).Nodup ∧ (∀ row, row ∈ list ↔ row ∈ rows) ∧
    (stored = none ↔ list = []) ∧
    ∀ trie ∈ stored, PackedTrie.ofList .closings list = .ok trie ∧
      (PackedTrie.JumpsFit .closings list →
        ∃ listing, trie.entries = some listing ∧ listing.Perm list)

/-- The draft that took some rows is good for their trie. -/
theorem stores_trieOf {list : List Entry} {draft : Draft} {rows : Set Entry}
    (added : Draft.empty.addAll list = .ok draft) (mem : ∀ row, row ∈ list ↔ row ∈ rows) :
    ∃ stored, trieOf draft = .ok stored ∧ Stores stored rows := by
  obtain ⟨short, distinct⟩ := Draft.addAll_empty_eq_ok added
  by_cases no_row : list = []
  · subst no_row
    obtain rfl := Except.ok.inj added
    exact ⟨none, rfl, [], distinct, mem, by simp, by simp⟩
  · obtain ⟨ascending, taken, some_ascending, perm, sorted, built⟩ :=
      PackedTrie.ofList_ok no_row distinct (List.forall_mem_map.2 short)
    obtain rfl := Except.ok.inj (taken.symm.trans added)
    refine ⟨some (.ofEntries .closings ascending), ?_, list, distinct, mem, by simp [no_row], ?_⟩
    · rw [trieOf, if_neg (by simpa using some_ascending), Draft.build]
      dsimp only
      rw [if_neg (by simpa using some_ascending)]
      rfl
    · rintro _ ⟨rfl⟩
      refine ⟨built .closings, fun fits => ⟨ascending, ?_, perm⟩⟩
      exact PackedTrie.entries_of_form
        (PackedTrie.ofEntries_form some_ascending sorted (fits _ taken))

/-- Distinct rows make tries, unless one of them is too long. -/
theorem ofAbbreviations_of_holds {abbreviations : Abbreviations}
    (holds : abbreviations.Holds separator kept) :
    (∃ index, ofAbbreviations abbreviations = .ok index ∧
        (∀ text ∈ kept, (Utf16.ofChars text).length ≤ lengthLimit) ∧
        Stores index.backward (backwardSet separator kept) ∧
        Stores index.onward (onwardSet separator kept)) ∨
      ∃ length, ofAbbreviations abbreviations = .error (.tooLong length) ∧
        lengthLimit < length ∧ ¬ ∀ text ∈ kept, (Utf16.ofChars text).length ≤ lengthLimit := by
  obtain ⟨rfl, sorted, mem⟩ := holds
  have distinct : abbreviations.members.Nodup := by
    simpa using Ascending.nodup_of_sorted sorted
  have folded := foldlM_add (additions abbreviations.separator abbreviations.members)
    ⟨.empty, .empty⟩
  rw [ofAbbreviations, Drafts.of, ← rows_short_iff abbreviations.separator]
  generalize List.foldlM Drafts.add _ _ = result at folded ⊢
  cases result with
  | ok done =>
      obtain ⟨backward_added, onward_added⟩ := folded
      obtain ⟨backward, backward_made, backward_stores⟩ :=
        stores_trieOf backward_added fun _ => mem_backwardRows mem
      obtain ⟨onward, onward_made, onward_stores⟩ :=
        stores_trieOf onward_added fun _ => mem_onwardRows mem
      refine Or.inl ⟨⟨backward, onward⟩, ?_, ?_, backward_stores, onward_stores⟩
      · simp only [bind, Except.bind, backward_made, onward_made]
        rfl
      · rintro row (member | member)
        · exact (Draft.addAll_empty_eq_ok backward_added).1 row ((mem_backwardRows mem).2 member)
        · exact (Draft.addAll_empty_eq_ok onward_added).1 row ((mem_onwardRows mem).2 member)
  | error fault =>
      obtain ⟨row, member, long, rfl⟩ :
          ∃ row ∈ backwardSet abbreviations.separator kept ∪ onwardSet abbreviations.separator kept,
            lengthLimit < row.1.length ∧ fault = .tooLong row.1.length := by
        rcases folded with refused | refused
        · obtain ⟨row, member, found⟩ :=
            Draft.addAll_empty_eq_error (nodup_backwardRows distinct) refused
          exact ⟨row, Or.inl ((mem_backwardRows mem).1 member), found⟩
        · obtain ⟨row, member, found⟩ :=
            Draft.addAll_empty_eq_error (nodup_onwardRows distinct) refused
          exact ⟨row, Or.inr ((mem_onwardRows mem).1 member), found⟩
      exact Or.inr ⟨_, rfl, long, fun short => Nat.not_le.2 long (short row member)⟩

/-- The tries of whatever set some changes leave. If no abbreviation is too long the backward trie
stores, in reverse, the first segments and the texts that begin with none of them, and the onward
trie stores the other texts; a trie that would be empty is missing. Else the length of a sequence is
what fails. -/
theorem stores_of_changes (separator : Char) (changes : List Change) :
    ((∀ text ∈ left changes, (Utf16.ofChars text).length ≤ lengthLimit) →
      ∃ index, ofAbbreviations (changed separator changes) = .ok index ∧
        Stores index.backward (backwardSet separator (left changes)) ∧
        Stores index.onward (onwardSet separator (left changes))) ∧
    ((∃ text ∈ left changes, lengthLimit < (Utf16.ofChars text).length) →
      ∃ length, lengthLimit < length ∧
        ofAbbreviations (changed separator changes) = .error (.tooLong length)) := by
  have either := ofAbbreviations_of_holds (holds_changed separator changes)
  constructor
  · intro short
    rcases either with ⟨index, made, _, stores⟩ | ⟨_, _, _, long⟩
    · exact ⟨index, made, stores⟩
    · exact absurd short long
  · rintro ⟨text, member, long⟩
    rcases either with ⟨_, _, short, _⟩ | ⟨length, failed, beyond, _⟩
    · exact absurd (short text member) (Nat.not_le.2 long)
    · exact ⟨length, beyond, failed⟩

/-- The first segment of one text is another text. It is stored once in reverse, and confirmed as a
text of its own. -/
theorem stores_of_changes_segment :
    ∃ index trie, ofAbbreviations (changed '.' [.suppress ['P', 'h', '.', 'D', '.'],
        .suppress ['M', 'r', '.'], .suppress ['P', 'h', '.'], .unsuppress ['M', 'r', '.']]) =
        .ok index ∧
      index.backward = some trie ∧ trie.entries = some [([46, 104, 80], 1)] ∧
      Stores index.onward {onwardRow ['P', 'h', '.'], onwardRow ['P', 'h', '.', 'D', '.']} := by
  have kept : left [.suppress ['P', 'h', '.', 'D', '.'], .suppress ['M', 'r', '.'],
      .suppress ['P', 'h', '.'], .unsuppress ['M', 'r', '.']] =
      {['P', 'h', '.'], ['P', 'h', '.', 'D', '.']} := by
    ext text
    simp only [left, List.foldl, Change.left, Set.mem_sdiff, Set.mem_insert_iff,
      Set.mem_singleton_iff, Set.mem_empty_iff_false, or_false]
    constructor
    · rintro ⟨rfl | same | rfl, other⟩
      · exact Or.inl rfl
      · exact absurd same other
      · exact Or.inr rfl
    · rintro (rfl | rfl) <;> simp
  have segments : firstSegments '.' {['P', 'h', '.'], ['P', 'h', '.', 'D', '.']} =
      {['P', 'h', '.']} := by
    ext segment
    rw [mem_firstSegments_iff]
    simpa [isMultiPart, opening] using eq_comm
  have opens : segmented '.' {['P', 'h', '.'], ['P', 'h', '.', 'D', '.']} =
      {['P', 'h', '.'], ['P', 'h', '.', 'D', '.']} := by
    rw [segmented, segments]
    ext text
    simp only [Set.mem_singleton_iff, exists_eq_left, Set.mem_ofPred_eq, and_iff_left_iff_imp]
    rintro (rfl | rfl) <;> decide
  obtain ⟨index, made, backward, onward⟩ := (stores_of_changes '.'
    [.suppress ['P', 'h', '.', 'D', '.'], .suppress ['M', 'r', '.'], .suppress ['P', 'h', '.'],
      .unsuppress ['M', 'r', '.']]).1 (by rw [kept]; rintro text (rfl | rfl) <;> decide)
  rw [kept, backwardSet, segments, opens, Set.sdiff_self, Set.image_empty, Set.empty_union,
    Set.image_singleton] at backward
  rw [kept, onwardSet, opens, Set.image_pair] at onward
  obtain ⟨list, distinct, mem, absent, stored⟩ := backward
  obtain rfl : list = [([46, 104, 80], 1)] :=
    List.perm_singleton.1 ((List.perm_ext_iff_of_nodup (List.Nodup.of_map _ distinct)
      (List.nodup_singleton _)).2 fun row => (mem row).trans (by rw [List.mem_singleton]; rfl))
  obtain ⟨trie, found⟩ : ∃ trie, index.backward = some trie :=
    Option.ne_none_iff_exists'.1 fun missing => absurd (absent.1 missing) (by decide)
  have fits : PackedTrie.JumpsFit .closings [([46, 104, 80], 1)] := by
    intro draft added
    have single : Draft.empty.addAll [([46, 104, 80], 1)] = .ok ⟨[([46, 104, 80], 1)], none⟩ := rfl
    obtain rfl := Except.ok.inj (single.symm.trans added)
    have shape : Layout.ofEntries [([46, 104, 80], 1)] =
        .run () none [46, 104, 80] (.closing () 1) := by
      simp [Layout.ofEntries, Layout.node, Layout.node.continuing, Layout.common, Layout.runs,
        Layout.pieces, Layout.pieces.extend, Layout.runLimit]
    simp [PackedTrie.jumps, PackedTrie.layout, shape, Sharing.number, Serial.jumps]
  obtain ⟨listing, listed, perm⟩ := (stored trie found).2 fits
  rw [List.perm_singleton.1 perm] at listed
  exact ⟨index, trie, made, found, listed, onward⟩

end SentenceBreaks.AbbreviationIndex
