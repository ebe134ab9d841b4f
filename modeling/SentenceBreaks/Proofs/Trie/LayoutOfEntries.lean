import SentenceBreaks.Proofs.AscendingOrder
import SentenceBreaks.Proofs.Trie.LayoutEntries
import Mathlib.Data.Fintype.Card
import Mathlib.Data.FinEnum
import Mathlib.Data.List.Perm.Subperm

/-! The layout of ascending entries stands for just these entries, and it is sound. The entries are
cut into what they all begin with and groups by the next unit; since they are ascending, the first
and the last of them already tell what all begin with. -/

namespace SentenceBreaks.Trie.Layout

open Ascending

/-- Pieces put together give back the units. -/
theorem flatten_pieces (units : List UInt16) : (pieces units).flatten = units := by
  induction units with
  | nil => rfl
  | cons unit units ih =>
      rw [pieces, List.foldr_cons, ← pieces]
      cases made : pieces units with
      | nil =>
          rw [made] at ih
          simp [pieces.extend, ← ih]
      | cons piece others =>
          rw [made] at ih
          simp only [pieces.extend]
          split <;> simp [← ih]

theorem mem_pieces {units piece : List UInt16} (member : piece ∈ pieces units) :
    piece ≠ [] ∧ piece.length ≤ runLimit := by
  induction units generalizing piece with
  | nil => simp [pieces] at member
  | cons unit units ih =>
      rw [pieces, List.foldr_cons, ← pieces] at member
      cases made : pieces units with
      | nil =>
          rw [made] at member
          simp only [pieces.extend, List.mem_singleton] at member
          simp [member, runLimit]
      | cons first others =>
          rw [made] at member ih
          simp only [pieces.extend] at member
          split at member
          next room =>
            rcases List.mem_cons.1 member with rfl | later
            · exact ⟨List.cons_ne_nil _ _, room⟩
            · exact ih (List.mem_cons_of_mem _ later)
          next full =>
            rcases List.mem_cons.1 member with rfl | later
            · simp [runLimit]
            · exact ih later

theorem foldr_runs (others : List (List UInt16)) (next : Layout Unit .node) (sound : next.Sound)
    (fit : ∀ piece ∈ others, piece ≠ [] ∧ piece.length ≤ runLimit) :
    (others.foldr (.run () none) next).entries = under others.flatten next.entries ∧
      (others.foldr (.run () none) next).Sound := by
  induction others with
  | nil => simpa using sound
  | cons piece others ih =>
      obtain ⟨same, ih_sound⟩ := ih fun other member => fit other (by simp [member])
      obtain ⟨some_unit, short⟩ := fit piece (by simp)
      refine ⟨?_, some_unit, short, ih_sound⟩
      rw [List.foldr_cons, entries, same, under_under]
      rfl

theorem runs_spec (value : Option Int32) {units : List UInt16} {next : Layout Unit .node}
    (some_unit : units ≠ []) (sound : next.Sound) :
    (runs value units next).entries = carried value ++ under units next.entries ∧
      (runs value units next).Sound := by
  have whole := flatten_pieces units
  unfold runs
  cases made : pieces units with
  | nil =>
      rw [made] at whole
      exact absurd whole.symm some_unit
  | cons piece others =>
      have fit := fun other member => @mem_pieces units other (made ▸ member)
      obtain ⟨same, later⟩ := foldr_runs others next sound fun other member =>
        fit other (List.mem_cons_of_mem _ member)
      obtain ⟨some_first, short⟩ := fit piece (by simp)
      refine ⟨?_, some_first, short, later⟩
      rw [entries, same, under_under, ← whole, made, List.flatten_cons]

/-- The entries under an edge. -/
def armEntries : UInt16 × Follow → List Entry
  | (unit, .closing value) => [([unit], value)]
  | (unit, .onward next) => under [unit] next.entries

def Follow.Sound : Follow → Prop
  | .closing _ => True
  | .onward next => next.Sound

theorem nodup_of_ascending {α : Type} {arms : List (UInt16 × α)}
    (ascending : arms.Pairwise fun a b => a.1 < b.1) : (arms.map Prod.fst).Nodup := by
  apply List.Pairwise.map _ _ ascending
  intro first second below
  exact UInt16.ne_of_lt below

section Arms

variable {arms : List (UInt16 × Follow)}

theorem edgesOf_spec (distinct : (arms.map Prod.fst).Nodup)
    (sound : ∀ arm ∈ arms, arm.2.Sound) :
    (edgesOf arms).entries = arms.flatMap armEntries ∧
      (edgesOf arms).starts = arms.map Prod.fst ∧ (edgesOf arms).Sound := by
  induction arms with
  | nil => exact ⟨rfl, rfl, trivial⟩
  | cons arm rest ih =>
      obtain ⟨new, distinct⟩ := List.nodup_cons.1 distinct
      obtain ⟨same, first, later⟩ := ih distinct fun other member => sound other (by simp [member])
      have own := sound arm (by simp)
      rw [← first] at new
      rcases arm with ⟨unit, value | next⟩
      · refine ⟨?_, ?_, new, later⟩
        · rw [edgesOf, entries, same]
          rfl
        · rw [edgesOf, starts, first]
          rfl
      · refine ⟨?_, ?_, new, own, later⟩
        · rw [edgesOf, entries, same]
          rfl
        · rw [edgesOf, starts, first]
          rfl

theorem listOf_spec (some_arm : arms ≠ []) (few : arms.length ≤ listLimit)
    (distinct : (arms.map Prod.fst).Nodup) (sound : ∀ arm ∈ arms, arm.2.Sound) :
    (listOf arms).entries = arms.flatMap armEntries ∧
      (listOf arms).starts = arms.map Prod.fst ∧ (listOf arms).Sound := by
  have split := List.dropLast_append_getLast some_arm
  have own := sound _ (List.getLast_mem some_arm)
  have kept := distinct
  have width : (edgesOf arms.dropLast).starts = arms.dropLast.map Prod.fst →
      (edgesOf arms.dropLast).width < listLimit := by
    intro same
    have positive := List.length_pos_iff.2 some_arm
    rw [← length_starts, same, List.length_map, List.length_dropLast]
    omega
  rw [← split, List.map_append, List.nodup_append] at kept
  obtain ⟨same, first, later⟩ := edgesOf_spec kept.1 fun other member =>
    sound other (List.dropLast_subset _ member)
  have new : (arms.getLast some_arm).1 ∉ (edgesOf arms.dropLast).starts := by
    rw [first]
    intro member
    exact kept.2.2 _ member _ (by simp) rfl
  unfold listOf
  rw [List.getLast?_eq_some_getLast some_arm]
  generalize arms.getLast some_arm = last at split own new
  rcases last with ⟨unit, value | next⟩
  · refine ⟨?_, ?_, width first, new, later⟩
    · rw [entries, same]
      conv_rhs => rw [← split, List.flatMap_append]
      simp [armEntries]
    · rw [starts, first]
      conv_rhs => rw [← split, List.map_append]
      rfl
  · refine ⟨?_, ?_, width first, new, later, own⟩
    · rw [entries, same]
      conv_rhs => rw [← split, List.flatMap_append]
      simp [armEntries]
    · rw [starts, first]
      conv_rhs => rw [← split, List.map_append]
      rfl

/-- A branch keeps its arms in order, and splits them at the unit in the middle. -/
theorem branch_spec (some_arm : arms ≠ []) (sorted : arms.Pairwise fun a b => a.1 < b.1)
    (sound : ∀ arm ∈ arms, arm.2.Sound) :
    (branch arms).entries = arms.flatMap armEntries ∧
      (branch arms).starts = arms.map Prod.fst ∧ (branch arms).Sound := by
  fun_induction branch arms with
  | case1 arms wide none_left =>
      have gone := List.drop_eq_nil_iff.1 none_left
      unfold listLimit at wide
      omega
  | case2 arms wide unit follow others upper lower_ih upper_ih =>
      unfold listLimit at wide
      have lower_some : arms.take (arms.length / 2) ≠ [] := by
        intro nothing
        have lengths := congrArg List.length nothing
        rw [List.length_take, List.length_nil] at lengths
        omega
      have parts := List.take_append_drop (arms.length / 2) arms
      have ordered := sorted
      rw [← parts, List.pairwise_append] at ordered
      obtain ⟨lower_sorted, upper_sorted, across⟩ := ordered
      obtain ⟨lower_same, lower_starts, lower_sound⟩ := lower_ih lower_some lower_sorted
        fun arm member => sound arm (List.mem_of_mem_take member)
      obtain ⟨upper_same, upper_starts, upper_sound⟩ := upper_ih (by simp [upper]) upper_sorted
        fun arm member => sound arm (List.mem_of_mem_drop member)
      refine ⟨?_, ?_, ?_, ?_, ?_, ?_, lower_sound, upper_sound⟩
      · rw [entries, lower_same, upper_same, ← List.flatMap_append, parts]
      · rw [starts, lower_starts, upper_starts, ← List.map_append, parts]
      · rw [← length_starts, ← length_starts, lower_starts, upper_starts, List.length_map,
          List.length_map, List.length_take, List.length_drop]
        unfold listLimit
        omega
      · rw [← length_starts, ← length_starts, lower_starts, upper_starts, List.length_map,
          List.length_map, List.length_take, List.length_drop]
        omega
      · intro first member
        rw [lower_starts] at member
        obtain ⟨arm, arm_member, rfl⟩ := List.mem_map.1 member
        exact across arm arm_member (unit, follow) (by simp [upper])
      · intro first member below
        rw [upper_starts, upper] at member
        rw [upper] at upper_sorted
        rcases List.mem_cons.1 member with rfl | later
        · exact UInt16.lt_irrefl _ below
        · obtain ⟨arm, arm_member, rfl⟩ := List.mem_map.1 later
          have above := (List.pairwise_cons.1 upper_sorted).1 arm arm_member
          exact UInt16.lt_irrefl _ (UInt16.lt_trans above below)
  | case3 arms narrow =>
      exact listOf_spec some_arm (by omega) (nodup_of_ascending sorted) sound

end Arms

/-- Behind equal units, entries are ordered by what is left of them. -/
theorem sorted_under {units : List UInt16} {entries : List Entry} :
    Sorted Prod.fst (under units entries) ↔ Sorted Prod.fst entries := by
  have same : ∀ a b : List UInt16, units ++ a < units ++ b ↔ a < b := by
    intro a b
    induction units with
    | nil => rfl
    | cons unit units ih =>
        rw [List.cons_append, List.cons_append, List.cons_lt_cons_iff, ih]
        simp [UInt16.lt_irrefl]
  unfold Sorted under
  rw [List.pairwise_map]
  simp only [same]

theorem groups_spec {entries : List Entry} (keyed : ∀ entry ∈ entries, entry.1 ≠ [])
    (sorted : Sorted Prod.fst entries) :
    (groups entries).flatMap (fun arm => under [arm.1] arm.2) = entries ∧
      (groups entries).Pairwise (fun a b => a.1 < b.1) ∧ ∀ arm ∈ groups entries, arm.2 ≠ [] := by
  induction entries with
  | nil => simp [groups]
  | cons entry rest ih =>
      obtain ⟨entry_below, rest_sorted⟩ := List.pairwise_cons.1 sorted
      obtain ⟨same, ascending, filled⟩ := ih (fun other member => keyed other (by simp [member]))
        rest_sorted
      rcases entry with ⟨_ | ⟨unit, sequence⟩, value⟩
      · exact absurd rfl (keyed ([], value) (by simp))
      · cases made : groups rest with
        | nil =>
            rw [made] at same
            simp [groups, ← same, under]
        | cons arm others =>
            obtain ⟨next, group⟩ := arm
            rw [made] at same ascending filled
            obtain ⟨next_below, _⟩ := List.pairwise_cons.1 ascending
            simp only [groups, made]
            by_cases equal : unit = next
            · subst equal
              rw [if_pos rfl]
              refine ⟨?_, ?_, ?_⟩
              · simp [← same, under]
              · simpa using ascending
              · intro other member
                rcases List.mem_cons.1 member with rfl | later
                · exact List.cons_ne_nil _ _
                · exact filled other (List.mem_cons_of_mem _ later)
            · have lower : unit < next := by
                have some_entry := filled (next, group) (by simp)
                obtain ⟨held, more, rfl⟩ := List.exists_cons_of_ne_nil some_entry
                have above := entry_below (next :: held.1, held.2) (by simp [← same, under])
                rcases List.cons_lt_cons_iff.1 above with below | ⟨equals, _⟩
                · exact below
                · exact absurd equals equal
              rw [if_neg equal]
              refine ⟨?_, ?_, ?_⟩
              · simp [← same, under]
              · refine List.pairwise_cons.2 ⟨fun other member => ?_, ascending⟩
                rcases List.mem_cons.1 member with rfl | later
                · exact lower
                · exact UInt16.lt_trans lower (next_below other later)
              · intro other member
                rcases List.mem_cons.1 member with rfl | later
                · exact List.cons_ne_nil _ _
                · exact filled other later

/-- The common units are a beginning of both sequences. -/
theorem common_prefix (first last : List UInt16) :
    common first last <+: first ∧ common first last <+: last := by
  induction first generalizing last with
  | nil => simp [common]
  | cons u us ih =>
      cases last with
      | nil => simp [common]
      | cons v vs =>
          by_cases same : u = v
          · subst same
            have later := ih vs
            simp only [common, List.zip_cons_cons, List.takeWhile_cons, decide_true, if_true,
              List.map_cons, List.prefix_cons_inj] at later ⊢
            exact later
          · simp [common, same]

/-- What stands between two sequences begins with what both begin with. -/
theorem prefix_of_between {shared low middle high : List UInt16} (first : shared <+: low)
    (last : shared <+: high) (above : low = middle ∨ low < middle)
    (below : middle = high ∨ middle < high) : shared <+: middle := by
  induction shared generalizing low middle high with
  | nil => exact List.nil_prefix
  | cons unit shared ih =>
      obtain ⟨low_rest, rfl⟩ := first
      obtain ⟨high_rest, rfl⟩ := last
      rcases above with rfl | above
      · exact List.prefix_append _ _
      · rcases below with rfl | below
        · exact List.prefix_append _ _
        · cases middle with
          | nil => exact absurd above (List.not_lt_nil _)
          | cons first middle =>
              rw [List.cons_append, List.cons_lt_cons_iff] at above below
              rcases above with above | ⟨rfl, above⟩
              · rcases below with below | ⟨rfl, _⟩
                · exact absurd (UInt16.lt_trans above below) (UInt16.lt_irrefl _)
                · exact absurd above (UInt16.lt_irrefl _)
              · rcases below with below | ⟨_, below⟩
                · exact absurd below (UInt16.lt_irrefl _)
                · exact List.prefix_cons_inj _ |>.2 (ih (List.prefix_append _ _)
                    (List.prefix_append _ _) (Or.inr above) (Or.inr below))

/-- In ascending entries every sequence begins with what the first and the last have in common. -/
theorem common_prefix_of_mem {entries : List Entry} {first last entry : Entry}
    (sorted : Sorted Prod.fst entries) (head : entries.head? = some first)
    (end_ : entries.getLast? = some last) (member : entry ∈ entries) :
    common first.1 last.1 <+: entry.1 := by
  obtain ⟨before, after⟩ := common_prefix first.1 last.1
  refine prefix_of_between before after ?_ ?_
  · obtain ⟨rest, rfl⟩ := List.head?_eq_some_iff.1 head
    rcases List.mem_cons.1 member with rfl | later
    · exact Or.inl rfl
    · exact Or.inr ((List.pairwise_cons.1 sorted).1 entry later)
  · obtain ⟨rest, rfl⟩ := List.getLast?_eq_some_iff.1 end_
    rcases List.mem_append.1 member with earlier | same
    · exact Or.inr ((List.pairwise_append.1 sorted).2.2 entry earlier last (by simp))
    · exact Or.inl (by rw [List.mem_singleton.1 same])

section Entries

variable {fuel : Nat} {all longer : List Entry} {value : Option Int32}

/-- Ascending entries of sequences that all go on. -/
structure Onward (longer : List Entry) : Prop where
  some_entry : longer ≠ []
  keyed : ∀ entry ∈ longer, entry.1 ≠ []
  sorted : Sorted Prod.fst longer

theorem entries_cases (some_entry : all ≠ []) (sorted : Sorted Prod.fst all) :
    (∃ value, all = [([], value)]) ∨
      ∃ value longer, all = carried value ++ longer ∧ Onward longer := by
  obtain ⟨⟨sequence, value⟩, rest, rfl⟩ := List.exists_cons_of_ne_nil some_entry
  obtain ⟨below, rest_sorted⟩ := List.pairwise_cons.1 sorted
  have rest_keyed : ∀ entry ∈ rest, entry.1 ≠ [] := by
    intro entry member nothing
    have above := below entry member
    rw [nothing] at above
    exact List.not_lt_nil _ above
  cases sequence with
  | nil =>
      by_cases alone : rest = []
      · exact Or.inl ⟨value, by rw [alone]⟩
      · exact Or.inr ⟨some value, rest, rfl, alone, rest_keyed, rest_sorted⟩
  | cons unit sequence =>
      refine Or.inr ⟨none, _, rfl, some_entry, ?_, sorted⟩
      exact List.forall_mem_cons.2 ⟨List.cons_ne_nil _ _, rest_keyed⟩

theorem node_closing (fuel : Nat) (value : Int32) :
    node fuel [([], value)] = .closing () value := by
  cases fuel <;> rw [node]

theorem node_onward (fuel : Nat) (value : Option Int32) (onward : Onward longer) :
    node (fuel + 1) (carried value ++ longer) = node.continuing fuel value longer := by
  obtain ⟨⟨sequence, own⟩, rest, rfl⟩ := List.exists_cons_of_ne_nil onward.some_entry
  have some_unit := onward.keyed _ List.mem_cons_self
  cases value with
  | none =>
      cases sequence with
      | nil => contradiction
      | cons unit sequence => rw [node.eq_def]; rfl
  | some value => rw [node.eq_def]; rfl

/-- Sequences that go on need fuel. -/
theorem exists_fuel (onward : Onward longer)
    (short : ∀ entry ∈ carried value ++ longer, entry.1.length ≤ fuel) :
    ∃ less, fuel = less + 1 ∧ ∀ entry ∈ longer, entry.1.length ≤ less + 1 := by
  obtain ⟨first, member⟩ := List.exists_mem_of_ne_nil _ onward.some_entry
  have bound := short first (List.mem_append_right _ member)
  have positive := List.length_pos_iff.2 (onward.keyed first member)
  refine ⟨fuel - 1, by omega, ?_⟩
  intro entry later
  have := short entry (List.mem_append_right _ later)
  omega

/-- The node for some entries closes, if there is just one that ends at once, and else goes on. -/
theorem node_cases (some_entry : all ≠ []) (sorted : Sorted Prod.fst all)
    (short : ∀ entry ∈ all, entry.1.length ≤ fuel) :
    (∃ value, all = [([], value)] ∧ node fuel all = .closing () value) ∨
      ∃ less value longer, fuel = less + 1 ∧ all = carried value ++ longer ∧ Onward longer ∧
        (∀ entry ∈ longer, entry.1.length ≤ less + 1) ∧
        node fuel all = node.continuing less value longer := by
  rcases entries_cases some_entry sorted with ⟨value, rfl⟩ | ⟨value, longer, rfl, onward⟩
  · exact Or.inl ⟨value, rfl, node_closing fuel value⟩
  · obtain ⟨less, rfl, longer_short⟩ := exists_fuel onward short
    exact Or.inr ⟨less, value, longer, rfl, rfl, onward, longer_short,
      node_onward less value onward⟩

end Entries

/-- The layout of any entries with so much fuel stands for them. -/
def Faithful (fuel : Nat) : Prop :=
  ∀ entries : List Entry, entries ≠ [] → Sorted Prod.fst entries →
    (∀ entry ∈ entries, entry.1.length ≤ fuel) →
    (node fuel entries).entries = entries ∧ (node fuel entries).Sound

theorem follow_spec {fuel : Nat} (faithful : Faithful fuel) (unit : UInt16) {group : List Entry}
    (some_entry : group ≠ []) (sorted : Sorted Prod.fst group)
    (short : ∀ entry ∈ group, entry.1.length ≤ fuel) :
    armEntries (unit, node.follow fuel group) = under [unit] group ∧
      (node.follow fuel group).Sound := by
  obtain ⟨same, sound⟩ := faithful group some_entry sorted short
  unfold node.follow
  split
  · exact ⟨rfl, trivial⟩
  · exact ⟨by rw [armEntries, same], sound⟩

/-- There are no more arms than units. -/
theorem length_le_of_ascending {α : Type} {arms : List (UInt16 × α)}
    (ascending : arms.Pairwise fun a b => a.1 < b.1) : arms.length ≤ 0x10000 := by
  have distinct : (arms.map fun arm => arm.1.toNat).Nodup :=
    List.Pairwise.map _ (fun a b below => Nat.ne_of_lt (UInt16.lt_iff_toNat_lt.1 below)) ascending
  have bounded : (arms.map fun arm => arm.1.toNat) ⊆ List.range 0x10000 := by
    intro n member
    obtain ⟨arm, _, rfl⟩ := List.mem_map.1 member
    exact List.mem_range.2 arm.1.toNat_lt
  have short := (List.subperm_of_subset distinct bounded).length_le
  rwa [List.length_map, List.length_range] at short

/-- Entries that begin with different units are in different groups. -/
theorem two_le_length_groups {longer : List Entry} {first last : Entry}
    (whole : (groups longer).flatMap (fun arm => under [arm.1] arm.2) = longer)
    (first_member : first ∈ longer) (last_member : last ∈ longer)
    (nothing : common first.1 last.1 = []) : 2 ≤ (groups longer).length := by
  have start_of : ∀ entry ∈ longer, ∃ arm ∈ groups longer, ∃ rest, entry.1 = arm.1 :: rest := by
    intro entry member
    rw [← whole] at member
    obtain ⟨arm, arm_member, held⟩ := List.mem_flatMap.1 member
    obtain ⟨inner, _, rfl⟩ := List.mem_map.1 held
    exact ⟨arm, arm_member, inner.1, rfl⟩
  obtain ⟨low, low_member, low_rest, low_eq⟩ := start_of first first_member
  obtain ⟨high, high_member, high_rest, high_eq⟩ := start_of last last_member
  have positive := List.length_pos_iff.2 (List.ne_nil_of_mem low_member)
  by_contra few
  obtain ⟨only, only_eq⟩ := List.length_eq_one_iff.1 (by omega : (groups longer).length = 1)
  rw [only_eq, List.mem_singleton] at low_member high_member
  rw [low_eq, high_eq, low_member, high_member] at nothing
  simp [common] at nothing

section Longer

variable {fuel : Nat} {longer : List Entry} {first last : Entry}

/-- A group by the next unit is a part of the entries, without that unit. -/
theorem fits_of_mem_groups {arm : UInt16 × List Entry} (onward : Onward longer)
    (short : ∀ entry ∈ longer, entry.1.length ≤ fuel + 1) (member : arm ∈ groups longer) :
    arm.2 ≠ [] ∧ Sorted Prod.fst arm.2 ∧ ∀ entry ∈ arm.2, entry.1.length ≤ fuel := by
  obtain ⟨whole, _, filled⟩ := groups_spec onward.keyed onward.sorted
  have inside : (under [arm.1] arm.2).Sublist longer := by
    conv_rhs => rw [← whole]
    obtain ⟨before, after, cut⟩ := List.append_of_mem member
    rw [cut, List.flatMap_append, List.flatMap_cons]
    exact (List.sublist_append_left _ _).trans (List.sublist_append_right _ _)
  refine ⟨filled arm member, sorted_under.1 (onward.sorted.sublist inside), fun entry held => ?_⟩
  have long := short (arm.1 :: entry.1, entry.2)
    (inside.subset (List.mem_map.2 ⟨entry, held, rfl⟩))
  simpa using long

theorem fork_spec (faithful : Faithful fuel) (value : Option Int32) (onward : Onward longer)
    (short : ∀ entry ∈ longer, entry.1.length ≤ fuel + 1)
    (first_member : first ∈ longer) (last_member : last ∈ longer)
    (nothing : common first.1 last.1 = []) :
    (Layout.fork () value (branch ((groups longer).map fun arm =>
      (arm.1, node.follow fuel arm.2)))).entries = carried value ++ longer ∧
    (Layout.fork () value (branch ((groups longer).map fun arm =>
      (arm.1, node.follow fuel arm.2)))).Sound := by
  obtain ⟨whole, ascending, _⟩ := groups_spec onward.keyed onward.sorted
  have two := two_le_length_groups whole first_member last_member nothing
  have few := length_le_of_ascending ascending
  have arm_spec : ∀ arm ∈ groups longer,
      armEntries (arm.1, node.follow fuel arm.2) = under [arm.1] arm.2 ∧
        (node.follow fuel arm.2).Sound := by
    intro arm member
    obtain ⟨filled, arm_sorted, arm_short⟩ := fits_of_mem_groups onward short member
    exact follow_spec faithful arm.1 filled arm_sorted arm_short
  have some_arm : (groups longer).map (fun arm => (arm.1, node.follow fuel arm.2)) ≠ [] := by
    intro none_left
    have lengths := congrArg List.length none_left
    rw [List.length_map, List.length_nil] at lengths
    omega
  obtain ⟨same, starts_eq, sound⟩ := branch_spec some_arm
    (by simpa [List.pairwise_map] using ascending) fun arm member => by
      obtain ⟨held, held_member, rfl⟩ := List.mem_map.1 member
      exact (arm_spec held held_member).2
  refine ⟨?_, ?_, ?_, sound⟩
  · rw [entries, same, List.flatMap_map]
    conv_rhs => rw [← whole]
    congr 1
    exact List.flatMap_congr fun arm member => (arm_spec arm member).1
  · rw [← length_starts, starts_eq, List.length_map, List.length_map]
    exact two
  · rw [← length_starts, starts_eq, List.length_map, List.length_map]
    exact few

/-- What is left of entries behind the units that all of them begin with. -/
theorem fits_of_shared (onward : Onward longer)
    (short : ∀ entry ∈ longer, entry.1.length ≤ fuel + 1) (head : longer.head? = some first)
    (ending : longer.getLast? = some last) (some_unit : common first.1 last.1 ≠ []) :
    under (common first.1 last.1) (longer.map fun entry =>
        (entry.1.drop (common first.1 last.1).length, entry.2)) = longer ∧
      longer.map (fun entry => (entry.1.drop (common first.1 last.1).length, entry.2)) ≠ [] ∧
      Sorted Prod.fst (longer.map fun entry =>
        (entry.1.drop (common first.1 last.1).length, entry.2)) ∧
      ∀ entry ∈ longer.map (fun entry => (entry.1.drop (common first.1 last.1).length, entry.2)),
        entry.1.length ≤ fuel := by
  have begins : ∀ entry ∈ longer, common first.1 last.1 <+: entry.1 := fun entry member =>
    common_prefix_of_mem onward.sorted head ending member
  generalize common first.1 last.1 = shared at some_unit begins
  have whole : under shared (longer.map fun entry => (entry.1.drop shared.length, entry.2)) =
      longer := by
    unfold under
    rw [List.map_map]
    conv_rhs => rw [← List.map_id longer]
    refine List.map_congr_left fun entry member => ?_
    obtain ⟨rest, same⟩ := begins entry member
    simp [← same, Prod.ext_iff]
  refine ⟨whole, ?_, ?_, fun entry member => ?_⟩
  · simpa using onward.some_entry
  · rw [← @sorted_under shared, whole]
    exact onward.sorted
  · obtain ⟨held, held_member, rfl⟩ := List.mem_map.1 member
    have long := short held held_member
    have positive := List.length_pos_iff.2 some_unit
    rw [List.length_drop]
    omega

theorem runs_common_spec (faithful : Faithful fuel) (value : Option Int32)
    (onward : Onward longer) (short : ∀ entry ∈ longer, entry.1.length ≤ fuel + 1)
    (head : longer.head? = some first) (ending : longer.getLast? = some last)
    (some_unit : common first.1 last.1 ≠ []) :
    (runs value (common first.1 last.1) (node fuel (longer.map fun entry =>
      (entry.1.drop (common first.1 last.1).length, entry.2)))).entries =
        carried value ++ longer ∧
    (runs value (common first.1 last.1) (node fuel (longer.map fun entry =>
      (entry.1.drop (common first.1 last.1).length, entry.2)))).Sound := by
  obtain ⟨whole, rest_some, rest_sorted, rest_short⟩ :=
    fits_of_shared onward short head ending some_unit
  obtain ⟨same, sound⟩ := faithful _ rest_some rest_sorted rest_short
  have spec := runs_spec value some_unit sound
  rwa [same, whole] at spec

theorem continuing_spec (faithful : Faithful fuel) (value : Option Int32)
    (onward : Onward longer) (short : ∀ entry ∈ longer, entry.1.length ≤ fuel + 1) :
    (node.continuing fuel value longer).entries = carried value ++ longer ∧
      (node.continuing fuel value longer).Sound := by
  unfold node.continuing
  split
  next first last head ending =>
    split
    next nothing =>
      exact fork_spec faithful value onward short (List.mem_of_head? head)
        (List.mem_of_getLast? ending) nothing
    next some_unit => exact runs_common_spec faithful value onward short head ending some_unit
  next missing =>
    exact absurd (List.getLast?_eq_some_getLast onward.some_entry)
      (missing _ _ (List.head?_eq_some_head onward.some_entry))

end Longer

theorem faithful_node (fuel : Nat) : Faithful fuel := by
  induction fuel with
  | zero =>
      intro all some_entry sorted short
      rcases node_cases some_entry sorted short with ⟨value, rfl, made⟩ | ⟨less, _, _, none_left, _⟩
      · rw [made]
        exact ⟨rfl, trivial⟩
      · contradiction
  | succ fuel faithful =>
      intro all some_entry sorted short
      rcases node_cases some_entry sorted short with
        ⟨value, rfl, made⟩ | ⟨less, value, longer, same, rfl, onward, longer_short, made⟩
      · rw [made]
        exact ⟨rfl, trivial⟩
      · obtain rfl := Nat.succ.inj same
        rw [made]
        exact continuing_spec faithful value onward longer_short

theorem le_foldl_max (lengths : List Nat) (start : Nat) :
    start ≤ lengths.foldl max start ∧ ∀ length ∈ lengths, length ≤ lengths.foldl max start := by
  induction lengths generalizing start with
  | nil => simp
  | cons length lengths ih =>
      obtain ⟨before, rest⟩ := ih (max start length)
      simp only [List.foldl_cons, List.mem_cons, forall_eq_or_imp]
      exact ⟨by omega, by omega, rest⟩

theorem length_le_longest (all : List Entry) :
    ∀ entry ∈ all, entry.1.length ≤ (all.map (·.1.length)).foldl max 0 := by
  intro entry member
  exact (le_foldl_max _ 0).2 _ (List.mem_map.2 ⟨entry, member, rfl⟩)

/-- The layout of ascending entries stands for them and can be read back. -/
theorem ofEntries_spec {all : List Entry} (some_entry : all ≠ []) (sorted : Sorted Prod.fst all) :
    (ofEntries all).entries = all ∧ (ofEntries all).Sound :=
  faithful_node _ all some_entry sorted (length_le_longest all)

end SentenceBreaks.Trie.Layout
