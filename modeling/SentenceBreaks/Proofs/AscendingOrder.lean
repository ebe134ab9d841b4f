import SentenceBreaks.Ascending
import Mathlib.Data.List.Nodup

/-! The comparison of sequences is the lexicographic order, and lists that are ascending in it stay
ascending. Putting an item in adds just that item, and fails just when its sequence is taken. Taking
an item out leaves just the others, and fails just when its sequence is not there. -/

namespace SentenceBreaks.Ascending

variable {α β : Type} [LT β] [DecidableLT β]

theorem order_cases [Std.Trichotomous (α := β) (· < ·)] (first second : List β) :
    (order first second = .lt ∧ first < second) ∨ (order first second = .eq ∧ first = second) ∨
      (order first second = .gt ∧ second < first) := by
  induction first generalizing second with
  | nil => cases second <;> simp [order]
  | cons u us ih =>
      cases second with
      | nil => simp [order]
      | cons v vs =>
          by_cases below : u < v
          · exact Or.inl ⟨by simp [order, below], List.cons_lt_cons_iff.2 (Or.inl below)⟩
          · by_cases above : v < u
            · refine Or.inr (Or.inr ⟨?_, List.cons_lt_cons_iff.2 (Or.inl above)⟩)
              simp [order, below, above]
            · have same : u = v := Std.Trichotomous.trichotomous u v below above
              subst same
              simp only [order, List.cons_lt_cons_iff, List.cons.injEq, true_and, below, false_or,
                if_false]
              exact ih vs

variable {sequence : α → List β} {item : α} {items more : List α}

/-- Items in ascending order of their sequences, each sequence once. -/
def Sorted (sequence : α → List β) (items : List α) : Prop :=
  items.Pairwise fun first second => sequence first < sequence second

omit [DecidableLT β] in
theorem nodup_of_sorted [Std.Asymm (α := β) (· < ·)] (sorted : Sorted sequence items) :
    (items.map sequence).Nodup := by
  rw [List.Nodup, List.pairwise_map]
  refine sorted.imp ?_
  intro first second less same
  rw [same] at less
  exact List.lt_irrefl _ less

omit [DecidableLT β] in
/-- Ascending lists of the same items are equal. -/
theorem eq_of_mem_iff [Std.Asymm (α := β) (· < ·)] (sorted : Sorted sequence items)
    (more_sorted : Sorted sequence more) (same : ∀ item, item ∈ items ↔ item ∈ more) :
    items = more := by
  have distinct : ∀ {items : List α}, Sorted sequence items → items.Nodup :=
    fun sorted => List.Nodup.of_map _ (nodup_of_sorted sorted)
  have perm := (List.perm_ext_iff_of_nodup (distinct sorted) (distinct more_sorted)).2 same
  apply perm.eq_of_pairwise _ sorted more_sorted
  intro first second _ _ below above
  exact absurd above (List.lt_asymm below)

theorem perm_insert (placed : insert sequence item items = some more) :
    more.Perm (item :: items) := by
  induction items generalizing more with
  | nil =>
      simp only [insert, Option.some.injEq] at placed
      rw [← placed]
  | cons least rest ih =>
      simp only [insert] at placed
      split at placed
      · simp only [Option.some.injEq] at placed
        rw [← placed]
      · contradiction
      · obtain ⟨others, inner, rfl⟩ := Option.map_eq_some_iff.1 placed
        exact ((ih inner).cons least).trans (List.Perm.swap item least rest)

theorem sublist_remove {taken : List β} (found : remove sequence taken items = some more) :
    more.Sublist items := by
  induction items generalizing more with
  | nil => contradiction
  | cons least rest ih =>
      simp only [remove] at found
      split at found
      · contradiction
      · obtain rfl := Option.some.inj found
        exact List.sublist_cons_self _ _
      · obtain ⟨others, inner, rfl⟩ := Option.map_eq_some_iff.1 found
        exact (ih inner).cons_cons least

section Sorted

variable [Std.Trichotomous (α := β) (· < ·)] [Trans (α := β) (· < ·) (· < ·) (· < ·)]

theorem sorted_insert (sorted : Sorted sequence items)
    (placed : insert sequence item items = some more) : Sorted sequence more := by
  induction items generalizing more with
  | nil =>
      simp only [insert, Option.some.injEq] at placed
      rw [← placed]
      exact List.pairwise_singleton _ _
  | cons least rest ih =>
      obtain ⟨least_below, rest_sorted⟩ := List.pairwise_cons.1 sorted
      have cases := order_cases (sequence item) (sequence least)
      simp only [insert] at placed
      split at placed
      next lower =>
        simp only [lower, true_and, reduceCtorEq, false_and, or_false] at cases
        simp only [Option.some.injEq] at placed
        rw [← placed]
        refine List.pairwise_cons.2 ⟨fun other member => ?_, sorted⟩
        rcases List.mem_cons.1 member with rfl | later
        · exact cases
        · exact List.lt_trans cases (least_below other later)
      next => contradiction
      next higher =>
        simp only [higher, true_and, reduceCtorEq, false_and, false_or] at cases
        obtain ⟨others, inner, rfl⟩ := Option.map_eq_some_iff.1 placed
        refine List.pairwise_cons.2 ⟨fun other member => ?_, ih rest_sorted inner⟩
        rcases List.mem_cons.1 ((perm_insert inner).mem_iff.1 member) with rfl | later
        · exact cases
        · exact least_below other later

theorem insert_eq_none_iff [Std.Asymm (α := β) (· < ·)] (sorted : Sorted sequence items) :
    insert sequence item items = none ↔ ∃ other ∈ items, sequence other = sequence item := by
  induction items with
  | nil => simp [insert]
  | cons least rest ih =>
      obtain ⟨least_below, rest_sorted⟩ := List.pairwise_cons.1 sorted
      have cases := order_cases (sequence item) (sequence least)
      simp only [insert]
      split
      next lower =>
        simp only [lower, true_and, reduceCtorEq, false_and, or_false] at cases
        simp only [reduceCtorEq, false_iff, not_exists, not_and, List.mem_cons]
        intro other member same
        rcases member with rfl | later
        · exact List.lt_irrefl _ (same ▸ cases)
        · exact List.lt_irrefl _ (same ▸ List.lt_trans cases (least_below other later))
      next equal =>
        simp only [equal, true_and, reduceCtorEq, false_and, or_false, false_or] at cases
        simp [cases]
      next higher =>
        simp only [higher, true_and, reduceCtorEq, false_and, false_or] at cases
        have different : sequence least ≠ sequence item :=
          fun same => List.lt_irrefl _ (same ▸ cases)
        rw [Option.map_eq_none_iff, ih rest_sorted]
        simp [different]

omit [Trans (α := β) (· < ·) (· < ·) (· < ·)] in
theorem mem_remove [Std.Asymm (α := β) (· < ·)] {taken : List β} (sorted : Sorted sequence items)
    (found : remove sequence taken items = some more) :
    item ∈ more ↔ item ∈ items ∧ sequence item ≠ taken := by
  induction items generalizing more with
  | nil => contradiction
  | cons least rest ih =>
      obtain ⟨least_below, rest_sorted⟩ := List.pairwise_cons.1 sorted
      have cases := order_cases taken (sequence least)
      simp only [remove] at found
      split at found
      next => contradiction
      next equal =>
        simp only [equal, true_and, reduceCtorEq, false_and, or_false, false_or] at cases
        obtain rfl := Option.some.inj found
        have others : ∀ other ∈ rest, sequence other ≠ taken := by
          intro other member same
          exact List.lt_irrefl _ (same ▸ cases ▸ least_below other member)
        rw [List.mem_cons]
        constructor
        · exact fun member => ⟨Or.inr member, others item member⟩
        · rintro ⟨rfl | member, different⟩
          · exact absurd cases.symm different
          · exact member
      next higher =>
        simp only [higher, true_and, reduceCtorEq, false_and, false_or] at cases
        obtain ⟨others, inner, rfl⟩ := Option.map_eq_some_iff.1 found
        have different : sequence least ≠ taken := fun same => List.lt_irrefl _ (same ▸ cases)
        rw [List.mem_cons, List.mem_cons, ih rest_sorted inner, or_and_right]
        refine or_congr_left ⟨fun same => ⟨same, same ▸ different⟩, And.left⟩

theorem remove_eq_none [Std.Asymm (α := β) (· < ·)] {taken : List β}
    (sorted : Sorted sequence items) (missing : remove sequence taken items = none) :
    ∀ other ∈ items, sequence other ≠ taken := by
  induction items with
  | nil => exact List.forall_mem_nil _
  | cons least rest ih =>
      obtain ⟨least_below, rest_sorted⟩ := List.pairwise_cons.1 sorted
      have cases := order_cases taken (sequence least)
      simp only [remove] at missing
      split at missing
      next lower =>
        simp only [lower, true_and, reduceCtorEq, false_and, or_false] at cases
        intro other member same
        rcases List.mem_cons.1 member with rfl | later
        · exact List.lt_irrefl _ (same ▸ cases)
        · exact List.lt_irrefl _ (same ▸ List.lt_trans cases (least_below other later))
      next => contradiction
      next higher =>
        simp only [higher, true_and, reduceCtorEq, false_and, false_or] at cases
        refine List.forall_mem_cons.2 ⟨fun same => List.lt_irrefl _ (same ▸ cases), ?_⟩
        exact ih rest_sorted (Option.map_eq_none_iff.1 missing)

end Sorted

end SentenceBreaks.Ascending
