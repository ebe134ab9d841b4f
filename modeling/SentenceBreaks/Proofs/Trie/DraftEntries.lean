import SentenceBreaks.Trie.Draft
import SentenceBreaks.Proofs.AscendingOrder

/-! What a draft holds after entries were added. Entries with different sequences within the length
limit are all taken, in any order, and the draft keeps them ascending. Of entries with different
sequences only one that is too long is refused. -/

namespace SentenceBreaks.Trie.Draft

variable {entries : List Entry}

theorem add_ok (draft : Draft) (sequence : List UInt16) (value : Int32)
    (unsealed : draft.sealed = none) (short : sequence.length ≤ lengthLimit)
    (sorted : Ascending.Sorted Prod.fst draft.entries)
    (new : ∀ entry ∈ draft.entries, entry.1 ≠ sequence) :
    ∃ more, draft.add sequence value = .ok ⟨more, none⟩ ∧
      more.Perm ((sequence, value) :: draft.entries) ∧ Ascending.Sorted Prod.fst more := by
  cases placed : Ascending.insert Prod.fst (sequence, value) draft.entries with
  | none =>
      obtain ⟨entry, member, same⟩ := (Ascending.insert_eq_none_iff sorted).1 placed
      exact absurd same (new entry member)
  | some more =>
      refine ⟨more, ?_, Ascending.perm_insert placed, Ascending.sorted_insert sorted placed⟩
      unfold add
      rw [unsealed, if_neg (by simp), if_neg (by omega), placed]

theorem addAll_cons_of_ok {draft next : Draft} {entry : Entry}
    (added : draft.add entry.1 entry.2 = .ok next) (rest : List Entry) :
    draft.addAll (entry :: rest) = next.addAll rest := by
  change (draft.add entry.1 entry.2).bind (addAll rest) = _
  rw [added]
  rfl

theorem addAll_cons_of_error {draft : Draft} {entry : Entry} {fault : Fault}
    (refused : draft.add entry.1 entry.2 = .error fault) (rest : List Entry) :
    draft.addAll (entry :: rest) = .error fault := by
  change (draft.add entry.1 entry.2).bind (addAll rest) = _
  rw [refused]
  rfl

/-- The first of distinct entries is taken, and those after it are still distinct then. -/
theorem add_head (draft : Draft) (entry : Entry) (unsealed : draft.sealed = none)
    (short : entry.1.length ≤ lengthLimit) (sorted : Ascending.Sorted Prod.fst draft.entries)
    (distinct : ((entry :: entries ++ draft.entries).map Prod.fst).Nodup) :
    ∃ more, draft.add entry.1 entry.2 = .ok ⟨more, none⟩ ∧
      (entries ++ more).Perm (entry :: entries ++ draft.entries) ∧
      Ascending.Sorted Prod.fst more ∧ ((entries ++ more).map Prod.fst).Nodup := by
  have new : ∀ held ∈ draft.entries, held.1 ≠ entry.1 := by
    intro held member same
    rw [List.cons_append, List.map_cons, List.nodup_cons] at distinct
    exact distinct.1 (List.mem_map.2 ⟨held, List.mem_append_right _ member, same⟩)
  obtain ⟨more, added, perm, more_sorted⟩ := add_ok draft entry.1 entry.2 unsealed short sorted new
  have shuffled : (entries ++ more).Perm (entry :: entries ++ draft.entries) :=
    (perm.append_left entries).trans List.perm_middle
  exact ⟨more, added, shuffled, more_sorted, (shuffled.map Prod.fst).nodup_iff.2 distinct⟩

theorem addAll_ok (draft : Draft) (unsealed : draft.sealed = none)
    (short : ∀ entry ∈ entries, entry.1.length ≤ lengthLimit)
    (sorted : Ascending.Sorted Prod.fst draft.entries)
    (distinct : ((entries ++ draft.entries).map Prod.fst).Nodup) :
    ∃ more, draft.addAll entries = .ok ⟨more, none⟩ ∧ more.Perm (entries ++ draft.entries) ∧
      Ascending.Sorted Prod.fst more := by
  induction entries generalizing draft with
  | nil =>
      refine ⟨draft.entries, ?_, List.Perm.refl _, sorted⟩
      rw [← unsealed]
      rfl
  | cons entry rest ih =>
      obtain ⟨own_short, rest_short⟩ := List.forall_mem_cons.1 short
      obtain ⟨more, added, shuffled, more_sorted, rest_distinct⟩ :=
        add_head draft entry unsealed own_short sorted distinct
      obtain ⟨all, added_rest, perm, all_sorted⟩ :=
        ih ⟨more, none⟩ rfl rest_short more_sorted rest_distinct
      exact ⟨all, (addAll_cons_of_ok added rest).trans added_rest, perm.trans shuffled, all_sorted⟩

/-- Distinct entries within the length limit make a draft of their own. -/
theorem addAll_empty (short : ∀ entry ∈ entries, entry.1.length ≤ lengthLimit)
    (distinct : (entries.map Prod.fst).Nodup) :
    ∃ more, empty.addAll entries = .ok ⟨more, none⟩ ∧ more.Perm entries ∧
      Ascending.Sorted Prod.fst more := by
  have added := addAll_ok empty rfl short List.Pairwise.nil
    (by simpa [empty] using distinct)
  simpa [empty] using added

/-- An entry that was taken is short and new. -/
theorem add_eq_ok {draft more : Draft} {sequence : List UInt16} {value : Int32}
    (added : draft.add sequence value = .ok more)
    (sorted : Ascending.Sorted Prod.fst draft.entries) :
    sequence.length ≤ lengthLimit ∧ more.entries.Perm ((sequence, value) :: draft.entries) ∧
      Ascending.Sorted Prod.fst more.entries := by
  unfold add at added
  split at added
  · contradiction
  · split at added
    · contradiction
    next room =>
      cases placed : Ascending.insert Prod.fst (sequence, value) draft.entries with
      | none =>
          rw [placed] at added
          contradiction
      | some entries =>
          rw [placed, Except.ok.injEq] at added
          subst added
          exact ⟨Nat.not_lt.1 room, Ascending.perm_insert placed,
            Ascending.sorted_insert sorted placed⟩

theorem addAll_eq_ok {draft more : Draft} (added : draft.addAll entries = .ok more)
    (sorted : Ascending.Sorted Prod.fst draft.entries) :
    (∀ entry ∈ entries, entry.1.length ≤ lengthLimit) ∧
      ((entries ++ draft.entries).map Prod.fst).Nodup := by
  induction entries generalizing draft with
  | nil => exact ⟨List.forall_mem_nil _, Ascending.nodup_of_sorted sorted⟩
  | cons entry rest ih =>
      cases first : draft.add entry.1 entry.2 with
      | error =>
          rw [addAll_cons_of_error first] at added
          contradiction
      | ok next =>
          rw [addAll_cons_of_ok first] at added
          obtain ⟨short, perm, next_sorted⟩ := add_eq_ok first sorted
          obtain ⟨rest_short, distinct⟩ := ih added next_sorted
          refine ⟨List.forall_mem_cons.2 ⟨short, rest_short⟩, ?_⟩
          have shuffled := (perm.append_left rest).trans List.perm_middle
          exact (shuffled.map Prod.fst).nodup_iff.1 distinct

/-- A draft of its own takes only distinct entries within the length limit. -/
theorem addAll_empty_eq_ok {more : Draft} (added : empty.addAll entries = .ok more) :
    (∀ entry ∈ entries, entry.1.length ≤ lengthLimit) ∧ (entries.map Prod.fst).Nodup := by
  simpa [empty] using addAll_eq_ok added .nil

/-- Only an entry that is too long can keep distinct ones from being taken. -/
theorem addAll_eq_error {draft : Draft} {fault : Fault} (unsealed : draft.sealed = none)
    (sorted : Ascending.Sorted Prod.fst draft.entries)
    (distinct : ((entries ++ draft.entries).map Prod.fst).Nodup)
    (failed : draft.addAll entries = .error fault) :
    ∃ entry ∈ entries, lengthLimit < entry.1.length ∧ fault = .tooLong entry.1.length := by
  induction entries generalizing draft with
  | nil => contradiction
  | cons entry rest ih =>
      by_cases long : lengthLimit < entry.1.length
      · have refused : draft.add entry.1 entry.2 = .error (.tooLong entry.1.length) := by
          unfold add
          rw [unsealed, if_neg (by simp), if_pos long]
        rw [addAll_cons_of_error refused] at failed
        exact ⟨entry, List.mem_cons_self, long, (Except.error.inj failed).symm⟩
      · obtain ⟨more, added, _, more_sorted, rest_distinct⟩ :=
          add_head draft entry unsealed (Nat.not_lt.1 long) sorted distinct
        rw [addAll_cons_of_ok added] at failed
        obtain ⟨held, member, found⟩ := ih rfl more_sorted rest_distinct failed
        exact ⟨held, List.mem_cons_of_mem _ member, found⟩

theorem addAll_empty_eq_error {fault : Fault} (distinct : (entries.map Prod.fst).Nodup)
    (failed : empty.addAll entries = .error fault) :
    ∃ entry ∈ entries, lengthLimit < entry.1.length ∧ fault = .tooLong entry.1.length :=
  @addAll_eq_error entries empty fault rfl .nil (by simpa [empty] using distinct) failed

end SentenceBreaks.Trie.Draft
