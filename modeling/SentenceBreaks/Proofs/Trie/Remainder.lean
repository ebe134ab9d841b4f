import SentenceBreaks.Trie.Probe
import SentenceBreaks.Proofs.Trie.LayoutEntries

/-! What is left of some entries behind a sequence, and what it tells: the sequence is stored if an
empty one is left with a value, and others continue it if a longer one is left. -/

namespace SentenceBreaks.Trie

/-- What is left of some entries behind a sequence. -/
def remainder (sequence : List UInt16) (entries : List Entry) : List Entry :=
  sequence.foldl (fun rest unit => behind unit rest) entries

def keys (entries : List Entry) : List (List UInt16) := entries.map Prod.fst

section Remainder

variable {unit : UInt16} {sequence more : List UInt16} {value : Int32} {entries others : List Entry}

@[simp] theorem remainder_nil (entries : List Entry) : remainder [] entries = entries := rfl

@[simp] theorem remainder_cons (unit : UInt16) (sequence : List UInt16) (entries : List Entry) :
    remainder (unit :: sequence) entries = remainder sequence (behind unit entries) := rfl

theorem remainder_append (sequence more : List UInt16) (entries : List Entry) :
    remainder (sequence ++ more) entries = remainder more (remainder sequence entries) :=
  List.foldl_append

@[simp] theorem remainder_of_nil (sequence : List UInt16) : remainder sequence [] = [] := by
  induction sequence with
  | nil => rfl
  | cons unit sequence ih => exact ih

theorem mem_behind_iff : (sequence, value) ∈ behind unit entries ↔
    (unit :: sequence, value) ∈ entries := by
  simp only [behind, List.mem_filterMap, Prod.exists]
  constructor
  · rintro ⟨key, other, member, kept⟩
    cases key with
    | nil => simp at kept
    | cons first rest =>
        simp only [Option.ite_none_right_eq_some, Option.some.injEq, Prod.mk.injEq] at kept
        obtain ⟨rfl, rfl, rfl⟩ := kept
        exact member
  · intro member
    exact ⟨unit :: sequence, value, member, by simp⟩

theorem mem_remainder_iff : (more, value) ∈ remainder sequence entries ↔
    (sequence ++ more, value) ∈ entries := by
  induction sequence generalizing entries with
  | nil => rfl
  | cons unit sequence ih =>
      rw [remainder_cons, ih, mem_behind_iff]
      rfl

theorem lookup_behind (unit : UInt16) (sequence : List UInt16) (entries : List Entry) :
    (behind unit entries).lookup sequence = entries.lookup (unit :: sequence) := by
  induction entries with
  | nil => rfl
  | cons entry entries ih =>
      obtain ⟨key, value⟩ := entry
      rw [← List.singleton_append, behind_append, List.lookup_append, ih, List.lookup_append]
      congr 1
      cases key with
      | nil => rfl
      | cons first rest =>
          by_cases same : first = unit
          · subst same
            simp [behind, List.lookup_cons]
          · have test : (unit == first) = false := beq_eq_false_iff_ne.2 (Ne.symm same)
            simp [behind, List.lookup_cons, same, test]

theorem lookup_remainder (sequence more : List UInt16) (entries : List Entry) :
    (remainder sequence entries).lookup more = entries.lookup (sequence ++ more) := by
  induction sequence generalizing entries with
  | nil => rfl
  | cons unit sequence ih => rw [remainder_cons, ih, lookup_behind, List.cons_append]

/-- With distinct sequences a lookup finds every entry. -/
theorem lookup_eq_some_iff (distinct : (keys entries).Nodup) :
    entries.lookup sequence = some value ↔ (sequence, value) ∈ entries := by
  induction entries with
  | nil => simp
  | cons entry entries ih =>
      obtain ⟨key, other⟩ := entry
      obtain ⟨absent, distinct⟩ := List.nodup_cons.1 distinct
      by_cases same : sequence = key
      · subst same
        have alone : (sequence, value) ∉ entries := fun member =>
          absent (List.mem_map.2 ⟨_, member, rfl⟩)
        simp [alone, eq_comm]
      · have test : (sequence == key) = false := beq_eq_false_iff_ne.2 same
        simp [List.lookup_cons, same, test, ih distinct]

theorem lookup_perm (distinct : (keys entries).Nodup) (perm : entries.Perm others)
    (sequence : List UInt16) : entries.lookup sequence = others.lookup sequence := by
  have others_distinct : (keys others).Nodup := (perm.map Prod.fst).nodup_iff.1 distinct
  ext value
  rw [lookup_eq_some_iff distinct, lookup_eq_some_iff others_distinct, perm.mem_iff]

theorem exists_key_perm (perm : entries.Perm others) {P : List UInt16 → Prop} :
    (∃ key ∈ keys entries, P key) ↔ ∃ key ∈ keys others, P key := by
  simp only [keys, (perm.map Prod.fst).mem_iff]

end Remainder

namespace Standing

/-- Where a sequence stands that leaves these entries. -/
def ofRest (rest : List Entry) : Standing :=
  match rest.any (·.1.isEmpty), rest.any (! ·.1.isEmpty) with
  | true, true => .passing
  | true, false => .ending
  | false, true => .within
  | false, false => .outside

variable {sequence : List UInt16} {entries rest : List Entry}

theorem ofRest_closing (value : Int32) : ofRest [([], value)] = .ending := rfl

theorem ofRest_longer (some_entry : rest ≠ []) (longer : ∀ entry ∈ rest, entry.1 ≠ []) :
    ofRest rest = .within := by
  have none_empty : rest.any (·.1.isEmpty) = false := by
    simpa using longer
  have some_longer : rest.any (! ·.1.isEmpty) = true := by
    obtain ⟨entry, member⟩ := List.exists_mem_of_ne_nil rest some_entry
    exact List.any_eq_true.2 ⟨entry, member, by simpa using longer entry member⟩
  unfold ofRest
  rw [none_empty, some_longer]

theorem ofRest_carried (value : Int32) (some_entry : rest ≠ [])
    (longer : ∀ entry ∈ rest, entry.1 ≠ []) : ofRest (carried (some value) ++ rest) = .passing := by
  have some_longer : rest.any (! ·.1.isEmpty) = true := by
    obtain ⟨entry, member⟩ := List.exists_mem_of_ne_nil rest some_entry
    exact List.any_eq_true.2 ⟨entry, member, by simpa using longer entry member⟩
  simp [ofRest, carried, some_longer]

theorem any_isEmpty_remainder (sequence : List UInt16) (entries : List Entry) :
    (remainder sequence entries).any (·.1.isEmpty) = true ↔ sequence ∈ keys entries := by
  rw [List.any_eq_true, keys, List.mem_map]
  constructor
  · rintro ⟨⟨key, value⟩, member, empty⟩
    obtain rfl := List.isEmpty_iff.1 empty
    rw [mem_remainder_iff, List.append_nil] at member
    exact ⟨_, member, rfl⟩
  · rintro ⟨⟨key, value⟩, member, rfl⟩
    refine ⟨([], value), mem_remainder_iff.2 ?_, rfl⟩
    rwa [List.append_nil]

theorem any_longer_remainder (sequence : List UInt16) (entries : List Entry) :
    (remainder sequence entries).any (! ·.1.isEmpty) = true ↔
      ∃ key ∈ keys entries, sequence <+: key ∧ sequence ≠ key := by
  rw [List.any_eq_true]
  constructor
  · rintro ⟨⟨more, value⟩, member, longer⟩
    refine ⟨sequence ++ more, List.mem_map.2 ⟨_, mem_remainder_iff.1 member, rfl⟩,
      List.prefix_append _ _, ?_⟩
    intro same
    rw [List.self_eq_append_right.1 same] at longer
    contradiction
  · rintro ⟨key, member, ⟨more, rfl⟩, longer⟩
    obtain ⟨⟨_, value⟩, member, rfl⟩ := List.mem_map.1 member
    refine ⟨(more, value), mem_remainder_iff.2 member, ?_⟩
    cases more with
    | nil => simp at longer
    | cons => rfl

theorem ne_nil_of_continues {rest : List Entry} (onward : (ofRest rest).continues) : rest ≠ [] := by
  rintro rfl
  contradiction

/-- Nothing is left behind a unit where no longer sequence is stored. -/
theorem behind_of_not_continues {unit : UInt16} (stop : (ofRest rest).continues = false) :
    behind unit rest = [] := by
  have none_longer : rest.any (! ·.1.isEmpty) = false := by
    unfold ofRest at stop
    cases longer : rest.any (! ·.1.isEmpty) with
    | false => rfl
    | true =>
        rw [longer] at stop
        cases empty : rest.any (·.1.isEmpty) <;> rw [empty] at stop <;> contradiction
  rw [List.eq_nil_iff_forall_not_mem]
  rintro ⟨key, value⟩ member
  have kept := List.any_eq_false.1 none_longer _ (mem_behind_iff.1 member)
  simp at kept

/-- The empty sequence has a value exactly where one is stored. -/
theorem isStored_ofRest (rest : List Entry) :
    (ofRest rest).isStored = (rest.lookup []).isSome := by
  have stored : (ofRest rest).isStored = rest.any (·.1.isEmpty) := by
    unfold ofRest
    cases rest.any (·.1.isEmpty) <;> cases rest.any (! ·.1.isEmpty) <;> rfl
  rw [stored, Bool.eq_iff_iff, List.any_eq_true, Option.isSome_iff_ne_none, ne_eq,
    List.lookup_eq_none_iff, not_forall]
  constructor
  · rintro ⟨entry, member, empty⟩
    refine ⟨entry, fun absent => ?_⟩
    rw [List.isEmpty_iff.1 empty] at absent
    exact absurd (absent member) (by decide)
  · rintro ⟨entry, found⟩
    obtain ⟨member, same⟩ := Classical.not_imp.1 found
    refine ⟨entry, member, ?_⟩
    rw [Bool.not_eq_true, bne_eq_false_iff_eq] at same
    rw [← same]
    rfl

/-- The four standings in terms of the stored sequences. -/
theorem ofRest_remainder (sequence : List UInt16) (entries : List Entry) :
    (ofRest (remainder sequence entries) = .outside ↔ ¬ ∃ key ∈ keys entries, sequence <+: key) ∧
    (ofRest (remainder sequence entries) = .within ↔
      sequence ∉ keys entries ∧ ∃ key ∈ keys entries, sequence <+: key ∧ sequence ≠ key) ∧
    (ofRest (remainder sequence entries) = .passing ↔
      sequence ∈ keys entries ∧ ∃ key ∈ keys entries, sequence <+: key ∧ sequence ≠ key) ∧
    (ofRest (remainder sequence entries) = .ending ↔
      sequence ∈ keys entries ∧ ¬ ∃ key ∈ keys entries, sequence <+: key ∧ sequence ≠ key) := by
  have stored := any_isEmpty_remainder sequence entries
  have extended := any_longer_remainder sequence entries
  have reached : (∃ key ∈ keys entries, sequence <+: key) ↔ sequence ∈ keys entries ∨
      ∃ key ∈ keys entries, sequence <+: key ∧ sequence ≠ key := by
    constructor
    · rintro ⟨key, member, shorter⟩
      by_cases same : sequence = key
      · exact Or.inl (same ▸ member)
      · exact Or.inr ⟨key, member, shorter, same⟩
    · rintro (member | ⟨key, member, shorter, _⟩)
      · exact ⟨sequence, member, List.prefix_rfl⟩
      · exact ⟨key, member, shorter⟩
  rw [reached, ← stored, ← extended]
  unfold ofRest
  cases (remainder sequence entries).any (·.1.isEmpty) <;>
    cases (remainder sequence entries).any (! ·.1.isEmpty) <;> decide

end Standing

end SentenceBreaks.Trie
