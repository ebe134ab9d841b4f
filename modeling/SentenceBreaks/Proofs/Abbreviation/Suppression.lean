import SentenceBreaks.Abbreviation.Index
import SentenceBreaks.Proofs.Trie.BuiltTrie

/-! When an abbreviation stands right before an offset. The backward search finds the longest text
before the offset that is stored in reverse. If its value is that of an opening, the onward search
has to find a stored text from its start on that no other stored one continues. -/

namespace SentenceBreaks

open Trie

namespace Text

/-- The walk stops at the last start of a character that is not beyond the offset. -/
theorem cut_walk_fits (before text : List Char) (room : Nat) :
    byteLength (cut.walk before text room).1.reverse ≤ byteLength before.reverse + room ∧
      ∀ c ∈ (cut.walk before text room).2.head?,
        byteLength before.reverse + room <
          byteLength (cut.walk before text room).1.reverse + c.utf8Size := by
  induction text generalizing before room with
  | nil => simp [cut.walk]
  | cons c after ih =>
      unfold cut.walk
      split
      next enough =>
        have passed : byteLength (c :: before).reverse =
            byteLength before.reverse + c.utf8Size := by
          rw [List.reverse_cons, byteLength_append, byteLength_cons]
          rfl
        have total : byteLength before.reverse + c.utf8Size + (room - c.utf8Size) =
            byteLength before.reverse + room := by omega
        have later := ih (c :: before) (room - c.utf8Size)
        rwa [passed, total] at later
      next narrow =>
        refine ⟨Nat.le_add_right _ _, ?_⟩
        intro other first
        obtain rfl := Option.some.inj first
        exact Nat.add_lt_add_left (Nat.not_le.1 narrow) _

end Text

namespace Trie.Probe

open Text

variable {units : Array UInt16} {rest : List Entry} {probe : Probe}

/-- A character leaves the entries behind its units. Only when there are none the probe may sit
elsewhere, as it stays behind the first half of a character. -/
theorem feedChar_of_sits (c : Char) (sits : Sits units rest probe) :
    ∃ moved, probe.feedChar units c =
        some (Standing.ofRest (remainder (Utf16.units c) rest), moved) ∧
      (remainder (Utf16.units c) rest ≠ [] →
        Sits units (remainder (Utf16.units c) rest) moved) := by
  unfold feedChar Utf16.units
  by_cases single : c.toNat < 0x10000
  · obtain ⟨moved, fed, further, _⟩ := feeds_feed (UInt16.ofNat c.toNat) sits
    rw [if_pos single, if_pos single]
    exact ⟨moved, fed, fun _ => further⟩
  · obtain ⟨half, fed, between, _⟩ := feeds_feed (Utf16.high c) sits
    rw [if_neg single, if_neg single, fed]
    simp only [bind, Option.bind, remainder_cons, remainder_nil]
    split
    · obtain ⟨moved, fed, further, _⟩ := feeds_feed (Utf16.low c) between
      exact ⟨moved, fed, fun _ => further⟩
    next stop =>
      rw [Standing.behind_of_not_continues (Bool.not_eq_true _ ▸ stop)]
      exact ⟨half, rfl, fun some_entry => absurd rfl some_entry⟩

end Trie.Probe

namespace AbbreviationIndex

open Text

variable {units : Array UInt16} {rest : List Entry} {probe : Probe} {before ahead : List Char}
  {best result : Option (Int32 × List Char)}

/-- Some characters, nearest first, are stored with a value. -/
def Reaches (rest : List Entry) (before near : List Char) (value : Int32) : Prop :=
  near ≠ [] ∧ near <+: before ∧ rest.lookup (Utf16.ofChars near) = some value

/-- The result of a search for the longest stored text. -/
def Longest (rest : List Entry) (before ahead : List Char)
    (best result : Option (Int32 × List Char)) : Prop :=
  (∃ near value, Reaches rest before near value ∧
      (∀ other value, Reaches rest before other value → other.length ≤ near.length) ∧
      result = some (value, near.reverse ++ ahead)) ∨
    (∀ near value, ¬ Reaches rest before near value) ∧ result = best

theorem reaches_singleton {c : Char} {value : Int32} :
    Reaches rest (c :: before) [c] value ↔
      (remainder (Utf16.units c) rest).lookup [] = some value := by
  rw [lookup_remainder]
  constructor
  · exact fun reaches => reaches.2.2
  · exact fun found => ⟨List.cons_ne_nil _ _, ⟨before, rfl⟩, found⟩

theorem reaches_cons {c : Char} {near : List Char} {value : Int32} (some_char : near ≠ []) :
    Reaches rest (c :: before) (c :: near) value ↔
      Reaches (remainder (Utf16.units c) rest) before near value := by
  unfold Reaches
  rw [lookup_remainder, ← Utf16.ofChars_cons, List.cons_prefix_cons]
  constructor
  · exact fun ⟨_, ⟨_, shorter⟩, found⟩ => ⟨some_char, shorter, found⟩
  · exact fun ⟨_, shorter, found⟩ => ⟨List.cons_ne_nil _ _, ⟨rfl, shorter⟩, found⟩

/-- What is reached starts with the nearest character, alone or with more behind it. -/
theorem reaches_cases {c : Char} {near : List Char} {value : Int32}
    (reaches : Reaches rest (c :: before) near value) :
    near = [c] ∨ ∃ more, near = c :: more ∧
      Reaches (remainder (Utf16.units c) rest) before more value := by
  obtain ⟨some_char, shorter, found⟩ := reaches
  cases near with
  | nil => contradiction
  | cons first more =>
      obtain ⟨rfl, _⟩ := List.cons_prefix_cons.1 shorter
      by_cases single : more = []
      · exact Or.inl (by rw [single])
      · exact Or.inr ⟨more, rfl, (reaches_cons single).1 ⟨some_char, shorter, found⟩⟩

theorem ofChars_ne_nil {text : List Char} (some_char : text ≠ []) : Utf16.ofChars text ≠ [] := by
  cases text with
  | nil => contradiction
  | cons c text => exact List.append_ne_nil_of_left_ne_nil (Utf16.units_ne_nil c) _

/-- Where no longer sequence is stored, nothing more is reached. -/
theorem not_reaches_of_stop {near : List Char} {value : Int32}
    (stop : (Standing.ofRest rest).continues = false) : ¬ Reaches rest before near value := by
  rintro ⟨some_char, _, found⟩
  cases units : Utf16.ofChars near with
  | nil => exact ofChars_ne_nil some_char units
  | cons unit more =>
      rw [units, ← lookup_behind, Standing.behind_of_not_continues stop] at found
      contradiction

/-- A step of the search: what the nearest character alone reaches is the best for what is left. -/
theorem longest_cons {c : Char}
    (inner : Longest (remainder (Utf16.units c) rest) before (c :: ahead)
      ((((remainder (Utf16.units c) rest).lookup []).map (·, c :: ahead)).or best) result) :
    Longest rest (c :: before) ahead best result := by
  rcases inner with ⟨near, value, reaches, furthest, rfl⟩ | ⟨alone, rfl⟩
  · refine Or.inl ⟨c :: near, value, (reaches_cons reaches.1).2 reaches, ?_, ?_⟩
    · intro other value other_reaches
      rcases reaches_cases other_reaches with rfl | ⟨more, rfl, further⟩
      · exact Nat.succ_le_succ (Nat.zero_le _)
      · exact Nat.succ_le_succ (furthest more value further)
    · rw [List.reverse_cons, List.append_assoc, List.singleton_append]
  · cases held : (remainder (Utf16.units c) rest).lookup [] with
    | some value =>
        refine Or.inl ⟨[c], value, reaches_singleton.2 held, ?_, rfl⟩
        intro other value other_reaches
        rcases reaches_cases other_reaches with rfl | ⟨more, _, further⟩
        · exact Nat.le_refl _
        · exact absurd further (alone more value)
    | none =>
        refine Or.inr ⟨fun near value reaches => ?_, rfl⟩
        rcases reaches_cases reaches with rfl | ⟨more, _, further⟩
        · rw [reaches_singleton, held] at reaches
          contradiction
        · exact alone more value further

theorem longest_step {c : Char} {standing : Standing} {moved : Probe} {held : Option Int32}
    (fed : probe.feedChar units c = some (standing, moved))
    (value : (if standing.isStored then moved.value units else some none) = some held) :
    longest units (c :: before) ahead probe best =
      if standing.continues then
        longest units before (c :: ahead) moved ((held.map (·, c :: ahead)).or best)
      else some ((held.map (·, c :: ahead)).or best) := by
  rw [longest, fed]
  by_cases stored : standing.isStored = true
  · rw [if_pos stored] at value
    simp only [bind, Option.bind, pure, stored, if_true, value]
  · rw [if_neg stored, Option.some.injEq] at value
    subst value
    simp only [bind, Option.bind, pure, if_neg stored]

/-- The value that the search takes at a character is the one stored there. -/
theorem value_of_char {c : Char} {moved : Probe}
    (further : remainder (Utf16.units c) rest ≠ [] →
      Sits units (remainder (Utf16.units c) rest) moved) :
    (if (Standing.ofRest (remainder (Utf16.units c) rest)).isStored then moved.value units
      else some none) = some ((remainder (Utf16.units c) rest).lookup []) := by
  split
  next stored =>
    apply Probe.value_of_sits
    apply further
    intro empty
    rw [empty] at stored
    contradiction
  next missed =>
    rw [Standing.isStored_ofRest, Option.not_isSome_iff_eq_none] at missed
    rw [missed]

theorem longest_of_sits (before ahead : List Char) (sits : Sits units rest probe)
    (best : Option (Int32 × List Char)) :
    ∃ result, longest units before ahead probe best = some result ∧
      Longest rest before ahead best result := by
  induction before generalizing rest ahead probe best with
  | nil =>
      refine ⟨best, rfl, Or.inr ⟨?_, rfl⟩⟩
      rintro near value ⟨some_char, shorter, _⟩
      exact some_char (List.prefix_nil.1 shorter)
  | cons c before ih =>
      obtain ⟨moved, fed, further⟩ := Probe.feedChar_of_sits c sits
      rw [longest_step fed (value_of_char further)]
      split
      next onward =>
        obtain ⟨result, found, inner⟩ := ih (c :: ahead)
          (further (Standing.ne_nil_of_continues onward)) _
        exact ⟨result, found, longest_cons inner⟩
      next stop =>
        refine ⟨_, rfl, longest_cons (Or.inr ⟨fun near value => ?_, rfl⟩)⟩
        exact not_reaches_of_stop (Bool.not_eq_true _ ▸ stop)

/-- Some characters at the start of a text are stored with nothing longer. -/
def Ends (rest : List Entry) (text near : List Char) : Prop :=
  near ≠ [] ∧ near <+: text ∧ Standing.ofRest (remainder (Utf16.ofChars near) rest) = .ending

/-- Either the first character is stored with nothing longer, or it goes on with more. -/
theorem exists_ends_cons {c : Char} {text : List Char} : (∃ near, Ends rest (c :: text) near) ↔
    Standing.ofRest (remainder (Utf16.units c) rest) = .ending ∨
      ∃ near, Ends (remainder (Utf16.units c) rest) text near := by
  have behind_char : ∀ near, remainder (Utf16.ofChars (c :: near)) rest =
      remainder (Utf16.ofChars near) (remainder (Utf16.units c) rest) := by
    intro near
    rw [Utf16.ofChars_cons, remainder_append]
  constructor
  · rintro ⟨near, some_char, shorter, ending⟩
    cases near with
    | nil => contradiction
    | cons first near =>
        obtain ⟨rfl, inner⟩ := List.cons_prefix_cons.1 shorter
        rw [behind_char] at ending
        by_cases single : near = []
        · rw [single] at ending
          exact Or.inl ending
        · exact Or.inr ⟨near, single, inner, ending⟩
  · rintro (ending | ⟨near, _, shorter, ending⟩)
    · refine ⟨[c], List.cons_ne_nil _ _, List.cons_prefix_cons.2 ⟨rfl, List.nil_prefix⟩, ?_⟩
      rw [behind_char]
      exact ending
    · refine ⟨c :: near, List.cons_ne_nil _ _, List.cons_prefix_cons.2 ⟨rfl, shorter⟩, ?_⟩
      rw [behind_char, ending]

/-- Where no longer sequence is stored, nothing more ends. -/
theorem not_ends_of_stop {text near : List Char}
    (stop : (Standing.ofRest rest).continues = false) : ¬ Ends rest text near := by
  rintro ⟨some_char, _, ending⟩
  cases units : Utf16.ofChars near with
  | nil => exact ofChars_ne_nil some_char units
  | cons unit more =>
      rw [units, remainder_cons, Standing.behind_of_not_continues stop, remainder_of_nil] at ending
      contradiction

/-- The onward search answers whether some beginning of the text is stored with nothing longer. -/
theorem beginsWithEnding_of_sits (text : List Char) (sits : Sits units rest probe) :
    ∃ answer, beginsWithEnding units text probe = some answer ∧
      (answer = true ↔ ∃ near, Ends rest text near) := by
  induction text generalizing rest probe with
  | nil =>
      refine ⟨false, rfl, iff_of_false (by decide) ?_⟩
      rintro ⟨near, some_char, shorter, _⟩
      exact some_char (List.prefix_nil.1 shorter)
  | cons c text ih =>
      obtain ⟨moved, fed, further⟩ := Probe.feedChar_of_sits c sits
      rw [beginsWithEnding, fed, exists_ends_cons]
      simp only [bind, Option.bind, pure]
      split
      next onward =>
        obtain ⟨answer, found, same⟩ := ih (further (Standing.ne_nil_of_continues onward))
        refine ⟨answer, found, same.trans (or_iff_right ?_).symm⟩
        intro ending
        rw [ending] at onward
        contradiction
      next stop =>
        refine ⟨_, rfl, ?_⟩
        rw [decide_eq_true_iff, or_iff_left]
        rintro ⟨near, ends⟩
        exact not_ends_of_stop (Bool.not_eq_true _ ▸ stop) ends

/-- A text begins with a stored one, not empty, that no other stored one continues. -/
def Confirmed (rows : List Entry) (text : List Char) : Prop :=
  ∃ y, y ≠ [] ∧ y <+: text ∧ Utf16.ofChars y ∈ keys rows ∧
    ¬ ∃ key ∈ keys rows, Utf16.ofChars y <+: key ∧ Utf16.ofChars y ≠ key

variable {index : AbbreviationIndex} {backward : PackedTrie} {rows : List Entry}
  {onwardRows : Option (List Entry)}

theorem confirms_of_built (built : Option.Rel PackedTrie.BuiltFrom index.onward onwardRows)
    (text : List Char) :
    ∃ answer, index.confirms text = some answer ∧
      (answer = true ↔ ∃ more ∈ onwardRows, Confirmed more text) := by
  unfold confirms
  generalize index.onward = onward at built
  cases built with
  | none => exact ⟨false, rfl, by simp⟩
  | @some trie more built =>
      obtain ⟨ascending, sits, perm⟩ := built.represents.1.sits
      obtain ⟨answer, found, same⟩ := beginsWithEnding_of_sits text sits
      refine ⟨answer, found, same.trans ?_⟩
      have ending : ∀ y, Standing.ofRest (remainder (Utf16.ofChars y) ascending) = .ending ↔
          Utf16.ofChars y ∈ keys more ∧
            ¬ ∃ key ∈ keys more, Utf16.ofChars y <+: key ∧ Utf16.ofChars y ≠ key := by
        intro y
        rw [(Standing.ofRest_remainder (Utf16.ofChars y) ascending).2.2.2, exists_key_perm perm]
        simp only [keys, (perm.map Prod.fst).mem_iff]
      simp only [Option.mem_def, Option.some.injEq, exists_eq_left', Confirmed, Ends, ending]

/-- The text before an offset without one space at its end. -/
def withoutSpace (head : List Char) : List Char :=
  if head.getLast? = some ' ' then head.dropLast else head

theorem around_eq (text : List Char) (offset : Nat) :
    (around text offset).1.reverse = withoutSpace (cut text offset).1.reverse ∧
      (around text offset).1.reverse ++ (around text offset).2 = text := by
  have whole := cut_keeps text offset
  unfold around withoutSpace
  split
  next before ahead same =>
    rw [same] at whole ⊢
    simp only [List.reverse_cons, List.getLast?_concat, if_true, List.dropLast_concat, true_and]
    rw [← whole]
    simp
  next before ahead unspaced same =>
    rw [same] at whole ⊢
    rw [List.getLast?_reverse, if_neg]
    · exact ⟨rfl, whole⟩
    · intro space
      cases before with
      | nil => contradiction
      | cons c before =>
          obtain rfl := Option.some.inj space
          exact unspaced before rfl

/-- The longest text that is reached is one only. -/
theorem eq_of_furthest {near other : List Char} {value more : Int32}
    (reaches : Reaches rest before near value) (other_reaches : Reaches rest before other more)
    (furthest : other.length ≤ near.length) (least : near.length ≤ other.length) :
    other = near := by
  obtain ⟨_, shorter, _⟩ := reaches
  obtain ⟨_, other_shorter, _⟩ := other_reaches
  rw [List.prefix_iff_eq_take.1 shorter, List.prefix_iff_eq_take.1 other_shorter,
    Nat.le_antisymm furthest least]

/-- Whether the longest text that is reached is an abbreviation, by itself or by the onward rows. -/
def Decides (rows : List Entry) (onwardRows : Option (List Entry)) (before ahead : List Char) :
    Prop :=
  ∃ near value, Reaches rows before near value ∧
    (∀ other value, Reaches rows before other value → other.length ≤ near.length) ∧
    (value = wholeValue ∨ value = openingValue ∧
      ∃ more ∈ onwardRows, Confirmed more (near.reverse ++ ahead))

theorem decides_iff {near : List Char} {value : Int32} (reaches : Reaches rows before near value)
    (most : ∀ other value, Reaches rows before other value → other.length ≤ near.length) :
    Decides rows onwardRows before ahead ↔ value = wholeValue ∨ value = openingValue ∧
      ∃ more ∈ onwardRows, Confirmed more (near.reverse ++ ahead) := by
  refine ⟨?_, fun held => ⟨near, value, reaches, most, held⟩⟩
  rintro ⟨other, more, other_reaches, other_most, held⟩
  obtain rfl := eq_of_furthest reaches other_reaches (most other more other_reaches)
    (other_most near value reaches)
  obtain rfl := Option.some.inj (other_reaches.2.2.symm.trans reaches.2.2)
  exact held

theorem suppresses?_of_built (stored : index.backward = some backward)
    (built : backward.BuiltFrom rows)
    (onward : Option.Rel PackedTrie.BuiltFrom index.onward onwardRows) (text : List Char)
    (offset : Nat) :
    ∃ answer, index.suppresses? text offset = some answer ∧
      (answer = true ↔
        Decides rows onwardRows (around text offset).1 (around text offset).2) := by
  obtain ⟨represents, distinct⟩ := built.represents
  obtain ⟨ascending, sits, perm⟩ := represents.sits
  have ascending_distinct : (keys ascending).Nodup := (perm.map Prod.fst).nodup_iff.2 distinct
  have reaches_iff : ∀ near value, Reaches ascending (around text offset).1 near value ↔
      Reaches rows (around text offset).1 near value := by
    intro near value
    unfold Reaches
    rw [lookup_perm ascending_distinct perm]
  obtain ⟨result, found, furthest⟩ := longest_of_sits (around text offset).1
    (around text offset).2 sits none
  unfold Longest at furthest
  simp only [reaches_iff] at furthest
  unfold suppresses?
  rw [stored]
  simp only [found, bind, Option.bind, pure]
  rcases furthest with ⟨near, value, reaches, most, rfl⟩ | ⟨alone, rfl⟩
  · obtain ⟨confirmed, asked, same⟩ := confirms_of_built onward
      (near.reverse ++ (around text offset).2)
    rw [decides_iff reaches most]
    dsimp only
    by_cases whole : value = wholeValue
    · exact ⟨true, if_pos whole, iff_of_true rfl (Or.inl whole)⟩
    · rw [if_neg whole]
      by_cases opening : value = openingValue
      · rw [if_pos opening]
        refine ⟨confirmed, asked, same.trans ?_⟩
        rw [or_iff_right whole, and_iff_right opening]
      · exact ⟨false, if_neg opening, by simp [whole, opening]⟩
  · refine ⟨false, rfl, iff_of_false (by decide) ?_⟩
    rintro ⟨near, value, reaches, _⟩
    exact alone near value reaches

/-- What is nearest first before an offset is a text that ends there. -/
theorem reaches_iff_lookup {x line : List Char} {value : Int32} (some_char : x ≠ []) :
    Reaches rows line.reverse x.reverse value ↔
      x <:+ line ∧ rows.lookup (Utf16.ofChars x.reverse) = some value := by
  unfold Reaches
  rw [List.reverse_prefix, ne_eq, List.reverse_eq_nil_iff]
  exact and_iff_right some_char

theorem exists_value_iff (distinct : (keys rows).Nodup) (key : List UInt16) :
    key ∈ keys rows ↔ ∃ value, rows.lookup key = some value := by
  simp only [lookup_eq_some_iff distinct, keys, List.mem_map]
  constructor
  · rintro ⟨⟨key, value⟩, member, rfl⟩
    exact ⟨value, member⟩
  · rintro ⟨value, member⟩
    exact ⟨(key, value), member, rfl⟩

theorem decides_iff_suffix (distinct : (keys rows).Nodup) (line : List Char) :
    Decides rows onwardRows line.reverse ahead ↔
      ∃ front x, line = front ++ x ∧ x ≠ [] ∧ Utf16.ofChars x.reverse ∈ keys rows ∧
        (∀ y, y <:+ line → Utf16.ofChars y.reverse ∈ keys rows → y.length ≤ x.length) ∧
        (rows.lookup (Utf16.ofChars x.reverse) = some wholeValue ∨
          rows.lookup (Utf16.ofChars x.reverse) = some openingValue ∧
            ∃ more ∈ onwardRows, Confirmed more (x ++ ahead)) := by
  constructor
  · rintro ⟨near, value, reaches, most, held⟩
    obtain ⟨x, rfl⟩ : ∃ x : List Char, near = x.reverse := ⟨near.reverse, by simp⟩
    have some_char : x ≠ [] := by
      rintro rfl
      exact reaches.1 rfl
    obtain ⟨⟨front, line_eq⟩, found⟩ := (reaches_iff_lookup some_char).1 reaches
    rw [List.reverse_reverse] at held
    have member := (exists_value_iff distinct _).2 ⟨value, found⟩
    refine ⟨front, x, line_eq.symm, some_char, member, ?_, ?_⟩
    · intro y shorter member
      by_cases empty : y = []
      · rw [empty]
        exact Nat.zero_le _
      · obtain ⟨more, found⟩ := (exists_value_iff distinct _).1 member
        have longest := most y.reverse more ((reaches_iff_lookup empty).2 ⟨shorter, found⟩)
        rwa [List.length_reverse, List.length_reverse] at longest
    · rw [found, Option.some.injEq, Option.some.injEq]
      exact held
  · rintro ⟨front, x, rfl, some_char, member, most, held⟩
    obtain ⟨value, found⟩ := (exists_value_iff distinct _).1 member
    rw [found, Option.some.injEq, Option.some.injEq] at held
    refine ⟨x.reverse, value, (reaches_iff_lookup some_char).2 ⟨⟨front, rfl⟩, found⟩, ?_, ?_⟩
    · intro other more reaches
      obtain ⟨y, rfl⟩ : ∃ y : List Char, other = y.reverse := ⟨other.reverse, by simp⟩
      rw [List.length_reverse, List.length_reverse]
      have some_other : y ≠ [] := by
        rintro rfl
        exact reaches.1 rfl
      obtain ⟨shorter, found⟩ := (reaches_iff_lookup some_other).1 reaches
      exact most y shorter ((exists_value_iff distinct _).2 ⟨more, found⟩)
    · rw [List.reverse_reverse]
      exact held

/-- The check at an offset. The text before it is taken up to the last start of a character that is
not beyond the offset, and without one space at its end. Of the texts that end there and are stored
in reverse the longest one decides, by its value alone or by what the onward rows confirm. The
answer depends on the rows, the text and the offset only, and no trie is read past its end. -/
theorem suppresses_iff (stored : index.backward = some backward) (built : backward.BuiltFrom rows)
    (onward : Option.Rel PackedTrie.BuiltFrom index.onward onwardRows) (text : List Char)
    (offset : Nat) :
    ∃ head tail, text = head ++ tail ∧ byteLength head ≤ offset ∧
      (∀ c ∈ tail.head?, offset < byteLength head + c.utf8Size) ∧
      index.suppresses? text offset = some (index.suppresses text offset) ∧
      (index.suppresses text offset = true ↔
        ∃ front x, withoutSpace head = front ++ x ∧ x ≠ [] ∧
          Utf16.ofChars x.reverse ∈ keys rows ∧
          (∀ y, y <:+ withoutSpace head → Utf16.ofChars y.reverse ∈ keys rows →
            y.length ≤ x.length) ∧
          (rows.lookup (Utf16.ofChars x.reverse) = some wholeValue ∨
            rows.lookup (Utf16.ofChars x.reverse) = some openingValue ∧
              ∃ more ∈ onwardRows, Confirmed more (text.drop front.length))) := by
  obtain ⟨answer, found, same⟩ := suppresses?_of_built stored built onward text offset
  obtain ⟨trimmed, whole⟩ := around_eq text offset
  obtain ⟨inside, stops⟩ := cut_walk_fits [] text offset
  have value : index.suppresses text offset = answer := by
    rw [suppresses, found]
    rfl
  have from_start : ∀ front x, withoutSpace (cut text offset).1.reverse = front ++ x →
      text.drop front.length = x ++ (around text offset).2 := by
    intro front x line
    rw [← trimmed] at line
    rw [line, List.append_assoc] at whole
    have dropped := congrArg (List.drop front.length) whole
    rw [List.drop_left] at dropped
    exact dropped.symm
  rw [show byteLength [].reverse = 0 from rfl, Nat.zero_add] at inside stops
  refine ⟨(cut text offset).1.reverse, (cut text offset).2, (cut_keeps text offset).symm, inside,
    stops, by rw [value, found], ?_⟩
  rw [← List.reverse_reverse (around text offset).1, trimmed,
    decides_iff_suffix built.represents.2] at same
  rw [value, same]
  constructor
  · rintro ⟨front, x, line, some_char, member, most, held⟩
    refine ⟨front, x, line, some_char, member, most, ?_⟩
    rwa [from_start front x line]
  · rintro ⟨front, x, line, some_char, member, most, held⟩
    refine ⟨front, x, line, some_char, member, most, ?_⟩
    rwa [← from_start front x line]

/-- A text that is stored whole, with a space behind it and an offset past the end. -/
theorem suppresses_iff_whole :
    ∃ trie, PackedTrie.ofList .closings [([46, 114, 68], 2)] = .ok trie ∧
      suppresses ⟨some trie, none⟩ ['D', 'r', '.', ' '] 9 = true := by
  have fits : PackedTrie.JumpsFit .closings [([46, 114, 68], 2)] := by
    intro draft added
    have single : Draft.empty.addAll [([46, 114, 68], 2)] = .ok ⟨[([46, 114, 68], 2)], none⟩ := rfl
    rw [single, Except.ok.injEq] at added
    subst added
    have shape : Layout.ofEntries [([46, 114, 68], 2)] =
        .run () none [46, 114, 68] (.closing () 2) := by
      simp [Layout.ofEntries, Layout.node, Layout.node.continuing, Layout.common, Layout.runs,
        Layout.pieces, Layout.pieces.extend, Layout.runLimit]
    simp [PackedTrie.jumps, PackedTrie.layout, shape, Sharing.number, Serial.jumps]
  obtain ⟨trie, made, _⟩ := PackedTrie.ofList_represents (by decide) (by decide) (by decide) fits
  refine ⟨trie, made, ?_⟩
  obtain ⟨head, tail, whole, _, stops, _, same⟩ := @suppresses_iff ⟨some trie, none⟩ trie
    [([46, 114, 68], 2)] none rfl ⟨.closings, made, fits⟩ .none ['D', 'r', '.', ' '] 9
  have total := congrArg byteLength whole
  rw [byteLength_append] at total
  cases tail with
  | cons c tail =>
      have beyond := stops c rfl
      rw [show byteLength ['D', 'r', '.', ' '] = 4 by decide, byteLength_cons] at total
      omega
  | nil =>
      rw [List.append_nil] at whole
      subst whole
      refine same.2 ⟨[], ['D', 'r', '.'], by decide, by decide, by decide, ?_, Or.inl (by decide)⟩
      intro y shorter _
      exact shorter.length_le

end AbbreviationIndex

end SentenceBreaks
