import SentenceBreaks.Proofs.Abbreviation.IndexEntries
import SentenceBreaks.Proofs.Abbreviation.Suppression
import SentenceBreaks.Proofs.Trie.UnsharedSize
import SentenceBreaks.Proofs.SegmenterCalls

/-! Abbreviations of one part, where they stand right before an offset. Such an abbreviation is
stored whole unless it opens another one of several parts. In that case it has to be confirmed like
the others: some abbreviation that begins with it has to stand in the text there, and none may
continue that one. So next to "Ph.D." the offset behind "Ph. " is suppressed no more. -/

namespace SentenceBreaks

open Trie Text

theorem Text.cut_walk_append (before head tail : List Char) :
    cut.walk before (head ++ tail) (byteLength head) = (head.reverse ++ before, tail) := by
  induction head generalizing before with
  | nil =>
      cases tail with
      | nil => rfl
      | cons c tail =>
          have wide := c.utf8Size_pos
          rw [List.nil_append, cut.walk, if_neg (by rw [byteLength, List.foldl_nil]; omega)]
          rfl
  | cons c head ih =>
      rw [List.cons_append, cut.walk, byteLength_cons, if_pos (Nat.le_add_right ..),
        Nat.add_sub_cancel_left, ih, List.reverse_cons, List.append_assoc, List.singleton_append]

theorem Text.cut_append (head tail : List Char) :
    cut (head ++ tail) (byteLength head) = (head.reverse, tail) := by
  rw [cut, cut_walk_append, List.append_nil]

namespace AbbreviationIndex

open Abbreviations

variable {separator : Char} {kept : Set (List Char)} {rows : Set Entry}
  {stored : Option PackedTrie} {changes : List Change} {index : AbbreviationIndex}

/-- No trie is so large that its units could not say its jumps. -/
structure Small (index : AbbreviationIndex) : Prop where
  backward : ∀ trie ∈ index.backward, trie.units.size < 2 ^ 32
  onward : ∀ trie ∈ index.onward, trie.units.size < 2 ^ 32

/-- A stored trie of less than 2 ^ 32 units was built from a list of its rows. -/
theorem Stores.built (stores : Stores stored rows)
    (small : ∀ trie ∈ stored, trie.units.size < 2 ^ 32) :
    ∃ lists, Option.Rel PackedTrie.BuiltFrom stored lists ∧
      ∀ row, row ∈ rows ↔ ∃ list ∈ lists, row ∈ list := by
  obtain ⟨list, _, mem, missing, made⟩ := stores
  cases stored with
  | none =>
      obtain rfl := missing.1 rfl
      exact ⟨none, .none, fun row => by simp [← mem]⟩
  | some trie =>
      have built := (made trie rfl).1
      refine ⟨some list, .some ⟨.closings, built, ?_⟩, fun row => by simp [← mem]⟩
      exact PackedTrie.jumpsFit_of_size built (small trie rfl)

theorem mem_backwardSet {x : List Char} {value : Int32} :
    (Utf16.ofChars x.reverse, value) ∈ backwardSet separator kept ↔
      (x ∈ kept ∧ x ∉ segmented separator kept) ∧ value = wholeValue ∨
        x ∈ firstSegments separator kept ∧ value = openingValue := by
  constructor
  · rintro (⟨text, member, same⟩ | ⟨segment, member, same⟩)
    · obtain ⟨key, rfl⟩ := Prod.mk.inj same
      obtain rfl := text_of_ofChars_reverse key
      exact Or.inl ⟨member, rfl⟩
    · obtain ⟨key, rfl⟩ := Prod.mk.inj same
      obtain rfl := text_of_ofChars_reverse key
      exact Or.inr ⟨member, rfl⟩
  · rintro (⟨member, rfl⟩ | ⟨member, rfl⟩)
    · exact Or.inl ⟨x, member, rfl⟩
    · exact Or.inr ⟨x, member, rfl⟩

/-- A first segment is that of some text, which goes into the onward trie. -/
theorem onwardSet_nonempty {segment : List Char}
    (member : segment ∈ firstSegments separator kept) : (onwardSet separator kept).Nonempty := by
  obtain ⟨front, rest, _, _, shape, whole⟩ := id member
  refine ⟨onwardRow (front ++ separator :: rest), _, ⟨whole, segment, member, rest, ?_⟩, rfl⟩
  rw [shape, List.append_assoc, List.singleton_append]

/-- Only one first segment is at the beginning of a text. -/
theorem eq_of_firstSegments {segment other text : List Char}
    (member : segment ∈ firstSegments separator kept)
    (other_member : other ∈ firstSegments separator kept) (begins : segment <+: text)
    (other_begins : other <+: text) : segment = other :=
  Option.some.inj ((opening_of_mem_firstSegments member begins).symm.trans
    (opening_of_mem_firstSegments other_member other_begins))

/-- A text that is confirmed from a first segment on has to begin with that segment. -/
theorem mem_segmented_iff {segment y more : List Char}
    (member : segment ∈ firstSegments separator kept) (begins : y <+: segment ++ more) :
    y ∈ segmented separator kept ↔ y ∈ kept ∧ segment <+: y := by
  refine and_congr_right fun _ => ⟨?_, fun shorter => ⟨segment, member, shorter⟩⟩
  rintro ⟨other, other_member, shorter⟩
  rwa [eq_of_firstSegments member other_member (List.prefix_append ..) (shorter.trans begins)]

theorem mem_keys_iff {list : List Entry}
    (mem : ∀ row, row ∈ onwardSet separator kept ↔ row ∈ list) {key : List UInt16} :
    key ∈ keys list ↔ ∃ y ∈ segmented separator kept, key = Utf16.ofChars y := by
  simp only [keys, List.mem_map, ← mem]
  constructor
  · rintro ⟨_, ⟨y, member, rfl⟩, rfl⟩
    exact ⟨y, member, rfl⟩
  · rintro ⟨y, member, rfl⟩
    exact ⟨onwardRow y, ⟨y, member, rfl⟩, rfl⟩

/-- Some kept text that begins with a segment stands in a text from there on, and no other kept text
continues it. -/
def Vouched (kept : Set (List Char)) (segment more : List Char) : Prop :=
  ∃ y ∈ kept, segment <+: y ∧ y <+: segment ++ more ∧ ∀ z ∈ kept, y <+: z → z = y

theorem confirmed_iff_vouched {list : List Entry} {segment : List Char}
    (mem : ∀ row, row ∈ onwardSet separator kept ↔ row ∈ list)
    (member : segment ∈ firstSegments separator kept) (more : List Char) :
    Confirmed list (segment ++ more) ↔ Vouched kept segment more := by
  have some_char : segment ≠ [] := by
    obtain ⟨front, _, _, _, rfl, _⟩ := member
    simp
  constructor
  · rintro ⟨y, _, begins, stored, last⟩
    obtain ⟨_, opens, same⟩ := (mem_keys_iff mem).1 stored
    obtain rfl := Utf16.ofChars_injective same
    obtain ⟨kept_y, shorter⟩ := (mem_segmented_iff member begins).1 opens
    refine ⟨y, kept_y, shorter, begins, fun z kept_z longer => ?_⟩
    by_contra different
    refine last ⟨Utf16.ofChars z, (mem_keys_iff mem).2 ⟨z, ?_, rfl⟩,
      Utf16.ofChars_prefix_iff.2 longer, fun same => different (Utf16.ofChars_injective same).symm⟩
    exact ⟨kept_z, segment, member, shorter.trans longer⟩
  · rintro ⟨y, kept_y, shorter, begins, last⟩
    refine ⟨y, ?_, begins, (mem_keys_iff mem).2 ⟨y, ⟨kept_y, segment, member, shorter⟩, rfl⟩, ?_⟩
    · rintro rfl
      exact some_char (List.prefix_nil.1 shorter)
    · rintro ⟨_, stored, longer, different⟩
      obtain ⟨z, opens, rfl⟩ := (mem_keys_iff mem).1 stored
      exact different (congrArg _ (last z opens.1 (Utf16.ofChars_prefix_iff.1 longer)).symm)

/-- A place in a text, right behind a segment or behind a gap that follows it. -/
structure Spot where
  before : List Char
  segment : List Char
  gap : List Char
  after : List Char

namespace Spot

variable {p : Spot}

def text (p : Spot) : List Char := p.before ++ p.segment ++ p.gap ++ p.after

def offset (p : Spot) : Nat := byteLength (p.before ++ p.segment ++ p.gap)

/-- The segment is a kept text with a separator at its end and nowhere else, at most one space
follows it, and nothing longer ends where it does: no kept text, nor the first segment of one. -/
structure Ends (separator : Char) (kept : Set (List Char)) (p : Spot) : Prop where
  member : p.segment ∈ kept
  single : ∃ front, separator ∉ front ∧ p.segment = front ++ [separator]
  gap : p.gap = [] ∨ p.gap = [' ']
  longest : ∀ other ∈ kept ∪ firstSegments separator kept, other <:+ p.before ++ p.segment →
    other.length ≤ p.segment.length

theorem Ends.some_char (ends : p.Ends separator kept) : p.segment ≠ [] := by
  obtain ⟨front, _, same⟩ := ends.single
  rw [same]
  exact List.append_ne_nil_of_right_ne_nil _ (List.cons_ne_nil _ _)

theorem byteLength_pos {text : List Char} (some_char : text ≠ []) : 0 < byteLength text := by
  obtain ⟨c, rest, rfl⟩ := List.exists_cons_of_ne_nil some_char
  rw [byteLength_cons]
  exact Nat.add_pos_left c.utf8Size_pos _

theorem Ends.offset_pos (ends : p.Ends separator kept) : 0 < p.offset := by
  rw [offset, byteLength_append, byteLength_append]
  exact Nat.add_pos_left (Nat.add_pos_right _ (byteLength_pos ends.some_char)) _

theorem offset_lt (inside : p.after ≠ []) : p.offset < byteLength p.text := by
  rw [text, byteLength_append]
  exact Nat.lt_add_of_pos_right (byteLength_pos inside)

theorem around_text (visible : separator ≠ ' ') (ends : p.Ends separator kept) :
    around p.text p.offset = ((p.before ++ p.segment).reverse, p.gap ++ p.after) := by
  rw [around, text, offset, cut_append]
  rcases ends.gap with none | space
  · obtain ⟨front, _, same⟩ := ends.single
    rw [none, List.append_nil, same, List.reverse_append, List.reverse_concat]
    split
    next before ahead shape =>
      exact absurd (List.cons.inj (Prod.mk.inj shape).1).1 visible
    next before ahead _ shape =>
      rw [← shape]
      rfl
  · rw [space, List.reverse_concat]
    rfl

/-- A segment of one part begins with a first segment only if it is one. -/
theorem Ends.mem_segmented_iff (ends : p.Ends separator kept) :
    p.segment ∈ segmented separator kept ↔ p.segment ∈ firstSegments separator kept := by
  constructor
  · rintro ⟨_, other, member, begins⟩
    obtain ⟨front, clear, same⟩ := ends.single
    have own : opening separator p.segment = some p.segment :=
      opening_eq_some_iff.2 ⟨List.prefix_rfl, front, clear, same⟩
    rwa [Option.some.inj (own.symm.trans (opening_of_mem_firstSegments member begins))]
  · exact fun member => ⟨ends.member, p.segment, member, List.prefix_rfl⟩

theorem Ends.exists_value (ends : p.Ends separator kept) :
    ∃ value, (Utf16.ofChars p.segment.reverse, value) ∈ backwardSet separator kept := by
  by_cases opens : p.segment ∈ firstSegments separator kept
  · exact ⟨openingValue, mem_backwardSet.2 (Or.inr ⟨opens, rfl⟩)⟩
  · refine ⟨wholeValue, mem_backwardSet.2 (Or.inl ⟨⟨ends.member, ?_⟩, rfl⟩)⟩
    rwa [ends.mem_segmented_iff]

/-- The value of the segment decides at its place, as nothing longer is stored that ends there. -/
theorem Ends.decides_iff {list : List Entry} {lists : Option (List Entry)} {value : Int32}
    (ends : p.Ends separator kept) (distinct : (keys list).Nodup)
    (mem : ∀ row, row ∈ backwardSet separator kept ↔ row ∈ list)
    (found : (Utf16.ofChars p.segment.reverse, value) ∈ backwardSet separator kept) :
    Decides list lists (p.before ++ p.segment).reverse (p.gap ++ p.after) ↔
      value = wholeValue ∨ value = openingValue ∧
        ∃ more ∈ lists, Confirmed more (p.segment ++ (p.gap ++ p.after)) := by
  have reaches : Reaches list (p.before ++ p.segment).reverse p.segment.reverse value :=
    (reaches_iff_lookup ends.some_char).2
      ⟨List.suffix_append .., (lookup_eq_some_iff distinct).2 ((mem _).1 found)⟩
  rw [AbbreviationIndex.decides_iff reaches, List.reverse_reverse]
  intro other more other_reaches
  obtain ⟨y, rfl⟩ : ∃ y : List Char, other = y.reverse := ⟨other.reverse, by simp⟩
  have some_other : y ≠ [] := by
    rintro rfl
    exact other_reaches.1 rfl
  obtain ⟨ending, other_found⟩ := (reaches_iff_lookup some_other).1 other_reaches
  have row := (mem _).2 ((lookup_eq_some_iff distinct).1 other_found)
  rw [List.length_reverse, List.length_reverse]
  refine ends.longest y ?_ ending
  rcases mem_backwardSet.1 row with ⟨member, _⟩ | ⟨member, _⟩
  · exact Or.inl member.1
  · exact Or.inr member

/-- Right behind a kept text of one part an offset is suppressed just when the text is no first
segment, or some other that begins with it is confirmed there. -/
theorem Ends.suppresses_iff_vouched (ends : p.Ends separator kept) (visible : separator ≠ ' ')
    (backward : Stores index.backward (backwardSet separator kept))
    (onward : Stores index.onward (onwardSet separator kept))
    (small : index.Small) :
    index.suppresses p.text p.offset = true ↔
      p.segment ∉ firstSegments separator kept ∨ Vouched kept p.segment (p.gap ++ p.after) := by
  obtain ⟨lists, backward_built, backward_mem⟩ := backward.built small.backward
  obtain ⟨onward_lists, onward_built, onward_mem⟩ := onward.built small.onward
  obtain ⟨value, found⟩ := ends.exists_value
  obtain ⟨list, rfl, _⟩ := (backward_mem _).1 found
  simp only [Option.mem_def, Option.some.injEq, exists_eq_left'] at backward_mem
  generalize has_trie : index.backward = trie? at backward_built
  cases backward_built with
  | @some trie _ built =>
      obtain ⟨answer, asked, same⟩ :=
        suppresses?_of_built has_trie built onward_built p.text p.offset
      rw [suppresses, asked, Option.getD_some, same, around_text visible ends,
        ends.decides_iff built.represents.2 backward_mem found]
      rcases mem_backwardSet.1 found with ⟨⟨_, alone⟩, whole⟩ | ⟨opens, opening⟩
      · rw [ends.mem_segmented_iff] at alone
        exact iff_of_true (Or.inl whole) (Or.inl alone)
      · obtain ⟨row, member⟩ := onwardSet_nonempty opens
        obtain ⟨more, rfl, _⟩ := (onward_mem row).1 member
        simp only [Option.mem_def, Option.some.injEq, exists_eq_left'] at onward_mem ⊢
        rw [confirmed_iff_vouched onward_mem opens, opening]
        simp [opens, openingValue, wholeValue]

end Spot

theorem suppresses_iff_of_made (made : ofAbbreviations (changed separator changes) = .ok index)
    (small : index.Small) (visible : separator ≠ ' ') {p : Spot}
    (ends : p.Ends separator (left changes)) :
    index.suppresses p.text p.offset = true ↔
      p.segment ∉ firstSegments separator (left changes) ∨
        Vouched (left changes) p.segment (p.gap ++ p.after) := by
  rcases ofAbbreviations_of_holds (holds_changed separator changes) with
    ⟨other, same, _, backward, onward⟩ | ⟨length, failed, _⟩
  · obtain rfl := Except.ok.inj (made.symm.trans same)
    exact ends.suppresses_iff_vouched visible backward onward small
  · rw [made] at failed
    contradiction

/-- Inside a text, a boundary right behind a kept text of one part is dropped just when the text is
no first segment, or some other that begins with it is confirmed there. -/
theorem isBoundary_iff_vouched (made : ofAbbreviations (changed separator changes) = .ok index)
    (small : index.Small) (visible : separator ≠ ' ') (p : Spot)
    (ends : p.Ends separator (left changes)) (inside : p.after ≠ []) {d : Detector}
    {s : Segmenter} (reached : Segmenter.Reached [index] d s) (text : d.text = p.text)
    (candidate : p.offset ∈ d.boundaries.offsets) :
    (s.isBoundary p.offset).1 = false ↔
      p.segment ∉ firstSegments separator (left changes) ∨
        Vouched (left changes) p.segment (p.gap ++ p.after) := by
  have start : p.offset ≠ 0 := Nat.ne_of_gt ends.offset_pos
  have stop : p.offset ≠ d.length := by
    rw [Detector.length, text]
    exact Nat.ne_of_lt (p.offset_lt inside)
  rw [← suppresses_iff_of_made made small visible ends, ← Bool.not_eq_true,
    reached.rests.isBoundary_iff reached.opened.covers, Segmenter.kept, Set.mem_ofPred_eq,
    and_iff_right candidate, or_iff_right start, or_iff_right stop]
  simp [text]

/-- A text that opens no other one, with a space behind it. -/
theorem isBoundary_iff_vouched_alone :
    ∃ index d, ofAbbreviations (changed '.' [.suppress ['M', 'r', '.']]) = .ok index ∧
      Segmenter.Reached [index] d ⟨[index], d⟩ ∧ d.text = ['M', 'r', '.', ' ', 'X', '.'] ∧
      4 ∈ d.boundaries.offsets ∧ (Segmenter.isBoundary 4 ⟨[index], d⟩).1 = false := by
  let index : AbbreviationIndex := ⟨some (.ofEntries .closings [([46, 114, 77], 2)]), none⟩
  have made : ofAbbreviations (changed '.' [.suppress ['M', 'r', '.']]) = .ok index := rfl
  have small : index.Small := by
    refine ⟨?_, nofun⟩
    rintro _ ⟨rfl⟩
    have shape : Layout.ofEntries [([46, 114, 77], 2)] =
        .run () none [46, 114, 77] (.closing () 2) := by
      simp [Layout.ofEntries, Layout.node, Layout.node.continuing, Layout.common, Layout.runs,
        Layout.pieces, Layout.pieces.extend, Layout.runLimit]
    rw [PackedTrie.size_ofEntries_closings (by decide) (List.pairwise_singleton _ _),
      PackedTrie.plainSize_layout, shape]
    decide
  have kept : left [.suppress ['M', 'r', '.']] = {['M', 'r', '.']} := by
    simp [left, Change.left]
  let p : Spot := ⟨[], ['M', 'r', '.'], [' '], ['X', '.']⟩
  have ends : p.Ends '.' (left [.suppress ['M', 'r', '.']]) := by
    refine ⟨?_, ⟨['M', 'r'], by decide, rfl⟩, Or.inr rfl, fun other _ ending => ending.length_le⟩
    rw [kept]
    exact rfl
  let d := Detector.withBoundaries Detector.ends p.text [0, 4, 6]
  have opened : d.Opened := .scripted _ _ (by decide) (by decide) (by decide)
  refine ⟨index, d, made, .start opened, rfl, by decide, ?_⟩
  refine (isBoundary_iff_vouched made small (by decide) p ends (by decide) (.start opened) rfl
    (by decide)).2 (Or.inl ?_)
  rw [kept]
  rintro ⟨front, rest, _, some_rest, same, member⟩
  have own : 3 = (front ++ ['.']).length := congrArg List.length same
  have whole : (front ++ '.' :: rest).length = 3 := congrArg List.length member
  have more := List.length_pos_iff.2 some_rest
  simp only [List.length_append, List.length_cons, List.length_nil] at own whole
  omega

/-- The first segment of another text, with a space behind it. The other text does not stand there,
and the boundary remains. -/
theorem isBoundary_not_vouched :
    ∃ index d, ∃ p : Spot, ofAbbreviations (changed '.' [.suppress ['P', 'h', '.'],
        .suppress ['P', 'h', '.', 'D', '.']]) = .ok index ∧
      p.segment = ['P', 'h', '.'] ∧
      p.Ends '.' (left [.suppress ['P', 'h', '.'], .suppress ['P', 'h', '.', 'D', '.']]) ∧
      d.Opened ∧ d.text = p.text ∧ p.offset ∈ d.boundaries.offsets ∧ p.offset < d.length ∧
      (Segmenter.isBoundary p.offset ⟨[index], d⟩).1 = true := by
  let index : AbbreviationIndex := ⟨some (.ofEntries .closings [([46, 104, 80], 1)]),
    some (.ofEntries .closings [([80, 104, 46], 2), ([80, 104, 46, 68, 46], 2)])⟩
  have made : ofAbbreviations (changed '.' [.suppress ['P', 'h', '.'],
      .suppress ['P', 'h', '.', 'D', '.']]) = .ok index := rfl
  have small : index.Small := by
    constructor
    · rintro _ ⟨rfl⟩
      have shape : Layout.ofEntries [([46, 104, 80], 1)] =
          .run () none [46, 104, 80] (.closing () 1) := by
        simp [Layout.ofEntries, Layout.node, Layout.node.continuing, Layout.common, Layout.runs,
          Layout.pieces, Layout.pieces.extend, Layout.runLimit]
      rw [PackedTrie.size_ofEntries_closings (by decide) (List.pairwise_singleton _ _),
        PackedTrie.plainSize_layout, shape]
      decide
    · rintro _ ⟨rfl⟩
      have shape : Layout.ofEntries [([80, 104, 46], 2), ([80, 104, 46, 68, 46], 2)] =
          .run () none [80, 104, 46] (.run () (some 2) [68, 46] (.closing () 2)) := by
        simp [Layout.ofEntries, Layout.node, Layout.node.continuing, Layout.common, Layout.runs,
          Layout.pieces, Layout.pieces.extend, Layout.runLimit]
      rw [PackedTrie.size_ofEntries_closings (by decide) (List.pairwise_pair.2 (by decide)),
        PackedTrie.plainSize_layout, shape]
      decide
  have kept : left [.suppress ['P', 'h', '.'], .suppress ['P', 'h', '.', 'D', '.']] =
      {['P', 'h', '.', 'D', '.'], ['P', 'h', '.']} := by
    simp [left, Change.left]
  let p : Spot := ⟨[], ['P', 'h', '.'], [' '], ['S', 'm', 'i', 't', 'h', '.']⟩
  have ends : p.Ends '.' (left [.suppress ['P', 'h', '.'],
      .suppress ['P', 'h', '.', 'D', '.']]) := by
    refine ⟨?_, ⟨['P', 'h'], by decide, rfl⟩, Or.inr rfl, fun other _ ending => ending.length_le⟩
    rw [kept]
    exact Or.inr rfl
  let d := Detector.withBoundaries Detector.ends p.text [0, 4, 10]
  have opened : d.Opened := .scripted _ _ (by decide) (by decide) (by decide)
  have dropped := suppresses_iff_of_made made small (by decide) ends
  have opens : p.segment ∈ firstSegments '.' {['P', 'h', '.', 'D', '.'], ['P', 'h', '.']} :=
    ⟨['P', 'h'], ['D', '.'], by decide, by decide, rfl, Or.inl rfl⟩
  have unvouched : ¬ Vouched {['P', 'h', '.', 'D', '.'], ['P', 'h', '.']} p.segment
      (p.gap ++ p.after) := by
    rintro ⟨y, rfl | rfl, _, begins, last⟩
    · exact absurd begins (by decide)
    · exact absurd (last _ (Or.inl rfl) (by decide)) (by decide)
  rw [kept] at dropped
  have remains := fun suppressed => (dropped.1 suppressed).elim (· opens) unvouched
  refine ⟨index, d, p, made, rfl, ends, opened, rfl, by decide, by decide, ?_⟩
  rw [(Segmenter.Reached.start opened).rests.isBoundary_iff opened.covers]
  refine ⟨by decide, Or.inr (Or.inr (List.forall_mem_singleton.2 ?_))⟩
  exact Bool.eq_false_iff.2 remains

end AbbreviationIndex

end SentenceBreaks
