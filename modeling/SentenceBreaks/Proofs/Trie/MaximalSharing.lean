import SentenceBreaks.Proofs.Trie.NodeRequests
import SentenceBreaks.Proofs.Trie.SerialWriting

/-! Sharing everything shares as much as there is to share. A signature that is known is never given
another number, so equal parts get equal numbers; and a number stands for one part only. So the
nodes that are asked for at two places have one number just when what is left of the entries is the
same at both. -/

namespace SentenceBreaks.Trie

/-- Every number that was given is that of a known signature. -/
def Registry.Full (registry : Registry) : Prop :=
  ∀ number < registry.count, ∃ signature : Signature, registry.known[signature]? = some number

namespace Sharing

/-- What each registration keeps is kept by the numbering of a part. -/
theorem number_keeps_of_register {P : Registry → Prop} (sharing : Sharing)
    (keeps : ∀ signature registry, P registry → P (sharing.register signature registry).2)
    {p : Part} (part : Layout Unit p) {registry : Registry} (holds : P registry) :
    P (sharing.number part registry).2 := by
  induction part generalizing registry with
  | closing => exact keeps _ _ holds
  | run tag value units next ih => exact keeps _ _ (ih holds)
  | fork tag value next ih => exact keeps _ _ (ih holds)
  | split tag unit less rest less_ih rest_ih => exact keeps _ _ (rest_ih (less_ih holds))
  | list tag lower unit last lower_ih last_ih => exact keeps _ _ (last_ih (lower_ih holds))
  | listClosing tag lower unit value ih => exact keeps _ _ (ih holds)
  | done => exact holds
  | edge unit target rest target_ih rest_ih => exact rest_ih (target_ih holds)
  | edgeClosing unit value rest ih => exact ih holds

theorem full_empty : Registry.Full ⟨∅, 0⟩ := by
  intro number below
  contradiction

theorem full_register (signature : Signature) (registry : Registry) (full : registry.Full) :
    (register .everything signature registry).2.Full := by
  unfold register
  rw [if_pos (show covers .everything signature = true from rfl)]
  split
  next => exact full
  next unknown =>
    intro number below
    rcases Nat.lt_succ_iff_lt_or_eq.1 below with earlier | rfl
    · obtain ⟨other, known⟩ := full number earlier
      have different : signature ≠ other := by
        rintro rfl
        rw [known] at unknown
        contradiction
      refine ⟨other, ?_⟩
      rw [Std.HashMap.getElem?_insert, if_neg (by simpa using different), known]
    · exact ⟨signature, Std.HashMap.getElem?_insert_self⟩

end Sharing

namespace Registry

open Layout

variable {registry : Registry} {book : List Signature} {first second : Tagged Nat}

/-- In a full registry the signature of a part that was entered is known by the number of the
part. -/
theorem Full.known (full : registry.Full) (keeps : registry.Keeps book) {part : Tagged Nat}
    (entered : InBook book part) : registry.known[part.signature]? = some part.tag := by
  have below : part.tag < registry.count := by
    rw [keeps.count]
    exact (List.getElem?_eq_some_iff.1 entered).1
  obtain ⟨signature, found⟩ := full part.tag below
  have same : some signature = some part.signature :=
    (keeps.known signature part.tag found).symm.trans entered
  rw [← Option.some.inj same, found]

theorem Full.tag_eq (full : registry.Full) (keeps : registry.Keeps book)
    (first_in : InBook book first) (second_in : InBook book second)
    (same : first.signature = second.signature) : first.tag = second.tag := by
  apply Option.some.inj
  rw [← full.known keeps first_in, same, full.known keeps second_in]

/-- The induction is on the first part. The children are equal, so both parts have one signature,
and its number is that of both. -/
theorem Full.eq_of_untag {p : Part} (full : registry.Full) (keeps : registry.Keeps book)
    (first second : Layout Nat p) (first_in : ∀ part ∈ first.within, InBook book part)
    (second_in : ∀ part ∈ second.within, InBook book part) (same : first.untag = second.untag) :
    first = second := by
  induction first with
  | closing tag value =>
      cases second with
      | closing other_tag other =>
          obtain rfl : value = other := by simpa [untag] using same
          have tags := full.tag_eq keeps (first_in _ List.mem_cons_self)
            (second_in _ List.mem_cons_self) rfl
          exact congrArg (closing · value) tags
      | run => simp [untag] at same
      | fork => simp [untag] at same
  | run tag value units next ih =>
      cases second with
      | closing => simp [untag] at same
      | run other_tag other letters below =>
          obtain ⟨rfl, rfl, nexts⟩ : value = other ∧ units = letters ∧
              next.untag = below.untag := by
            simpa [untag] using same
          obtain rfl := ih below (entered first_in) (entered second_in) nexts
          have tags := full.tag_eq keeps (first_in _ List.mem_cons_self)
            (second_in _ List.mem_cons_self) rfl
          exact congrArg (run · value units next) tags
      | fork => simp [untag] at same
  | fork tag value next ih =>
      cases second with
      | closing => simp [untag] at same
      | run => simp [untag] at same
      | fork other_tag other below =>
          obtain ⟨rfl, nexts⟩ : value = other ∧ next.untag = below.untag := by
            simpa [untag] using same
          obtain rfl := ih below (entered first_in) (entered second_in) nexts
          have tags := full.tag_eq keeps (first_in _ List.mem_cons_self)
            (second_in _ List.mem_cons_self) rfl
          exact congrArg (fork · value next) tags
  | split tag unit less rest less_ih rest_ih =>
      cases second with
      | split other_tag middle lower upper =>
          obtain ⟨rfl, lowers, uppers⟩ : unit = middle ∧ less.untag = lower.untag ∧
              rest.untag = upper.untag := by
            simpa [untag] using same
          obtain ⟨rest_in, less_in⟩ := List.forall_mem_append.1 (entered first_in)
          obtain ⟨upper_in, lower_in⟩ := List.forall_mem_append.1 (entered second_in)
          obtain rfl := less_ih lower less_in lower_in lowers
          obtain rfl := rest_ih upper rest_in upper_in uppers
          have tags := full.tag_eq keeps (first_in _ List.mem_cons_self)
            (second_in _ List.mem_cons_self) rfl
          exact congrArg (split · unit less rest) tags
      | list => simp [untag] at same
      | listClosing => simp [untag] at same
  | list tag lower unit last lower_ih last_ih =>
      cases second with
      | split => simp [untag] at same
      | list other_tag edges letter end_ =>
          obtain ⟨lowers, rfl, lasts⟩ : lower.untag = edges.untag ∧ unit = letter ∧
              last.untag = end_.untag := by
            simpa [untag] using same
          obtain ⟨last_in, lower_in⟩ := List.forall_mem_append.1 (entered first_in)
          obtain ⟨end_in, edges_in⟩ := List.forall_mem_append.1 (entered second_in)
          obtain rfl := lower_ih edges lower_in edges_in lowers
          obtain rfl := last_ih end_ last_in end_in lasts
          have tags := full.tag_eq keeps (first_in _ List.mem_cons_self)
            (second_in _ List.mem_cons_self) rfl
          exact congrArg (list · lower unit last) tags
      | listClosing => simp [untag] at same
  | listClosing tag lower unit value ih =>
      cases second with
      | split => simp [untag] at same
      | list => simp [untag] at same
      | listClosing other_tag edges letter other =>
          obtain ⟨lowers, rfl, rfl⟩ : lower.untag = edges.untag ∧ unit = letter ∧
              value = other := by
            simpa [untag] using same
          obtain rfl := ih edges (fun part => entered first_in part)
            (fun part => entered second_in part) lowers
          have tags := full.tag_eq keeps (first_in _ List.mem_cons_self)
            (second_in _ List.mem_cons_self) rfl
          exact congrArg (listClosing · lower unit value) tags
  | done =>
      cases second with
      | done => rfl
      | edge => simp [untag] at same
      | edgeClosing => simp [untag] at same
  | edge unit target rest target_ih rest_ih =>
      cases second with
      | done => simp [untag] at same
      | edge letter other more =>
          obtain ⟨rfl, targets, rests⟩ : unit = letter ∧ target.untag = other.untag ∧
              rest.untag = more.untag := by
            simpa [untag] using same
          obtain ⟨rest_in, target_in⟩ := List.forall_mem_append.1 first_in
          obtain ⟨more_in, other_in⟩ := List.forall_mem_append.1 second_in
          rw [target_ih other target_in other_in targets, rest_ih more rest_in more_in rests]
      | edgeClosing => simp [untag] at same
  | edgeClosing unit value rest ih =>
      cases second with
      | done => simp [untag] at same
      | edge => simp [untag] at same
      | edgeClosing letter other more =>
          obtain ⟨rfl, rfl, rests⟩ : unit = letter ∧ value = other ∧ rest.untag = more.untag := by
            simpa [untag] using same
          rw [ih more first_in second_in rests]

end Registry

section Remainder

variable {entries : List Entry} {start other : List UInt16}

/-- Entries that leave the same behind two starts are those that go on alike behind them. -/
theorem remainder_eq_iff (sorted : Ascending.Sorted Prod.fst (remainder start entries))
    (other_sorted : Ascending.Sorted Prod.fst (remainder other entries)) :
    remainder start entries = remainder other entries ↔
      ∀ (rest : List UInt16) (value : Int32),
        (start ++ rest, value) ∈ entries ↔ (other ++ rest, value) ∈ entries := by
  constructor
  · intro same rest value
    rw [← mem_remainder_iff, same, mem_remainder_iff]
  · intro alike
    apply Ascending.eq_of_mem_iff sorted other_sorted
    rintro ⟨rest, value⟩
    rw [mem_remainder_iff, mem_remainder_iff]
    exact alike rest value

end Remainder

namespace PackedTrie

open Layout

variable {entries : List Entry} {start : List UInt16} {deep : Layout Nat .node}

/-- Whatever is asked for has its node in the numbered layout. -/
theorem nodeAt_of_asked (sharing : Sharing) (some_entry : entries ≠ [])
    (sorted : Ascending.Sorted Prod.fst entries) (asked : Asked entries start) :
    ∃ deep, (layout sharing entries).nodeAt start = some deep ∧
      deep.untag = Layout.ofEntries (remainder start entries) := by
  have found := (serves_of_asked some_entry sorted asked).found
  rw [← Sharing.untag_number sharing (Layout.ofEntries entries) ⟨∅, 0⟩, nodeAt_untag] at found
  exact Option.map_eq_some_iff.1 found

theorem within_of_nodeAt {root : Layout Nat .node} (found : root.nodeAt start = some deep) :
    deep.within ⊆ root.within := by
  intro inside member
  rcases List.mem_cons.1 (mem_within_of_nodeAt root found) with same | inner
  · rw [← Tagged.node.inj same]
    exact member
  · rcases List.mem_cons.1 member with rfl | deeper
    · exact List.mem_cons_of_mem _ inner
    · exact List.mem_cons_of_mem _ (inner_trans inner deeper)

/-- With everything shared, whatever two nodes are asked for while a trie is built, both are in its
layout, right behind the units that they are asked for behind and as the layouts of what is left
there; and they have the same number just when the sequences that go on from the one place, with
their values, are those that go on from the other. -/
theorem nodeTag_eq_iff_of_asked (some_entry : entries ≠ [])
    (sorted : Ascending.Sorted Prod.fst entries) {start other : List UInt16}
    (asked : Asked entries start) (other_asked : Asked entries other) :
    ∃ first second : Layout Nat .node,
      (layout .everything entries).nodeAt start = some first ∧
      first.untag = Layout.ofEntries (remainder start entries) ∧
      (layout .everything entries).nodeAt other = some second ∧
      second.untag = Layout.ofEntries (remainder other entries) ∧
      (first.nodeTag = second.nodeTag ↔ ∀ (rest : List UInt16) (value : Int32),
        (start ++ rest, value) ∈ entries ↔ (other ++ rest, value) ∈ entries) := by
  have serves := serves_of_asked some_entry sorted asked
  have other_serves := serves_of_asked some_entry sorted other_asked
  obtain ⟨first, found, made⟩ := nodeAt_of_asked .everything some_entry sorted asked
  obtain ⟨second, other_found, other_made⟩ :=
    nodeAt_of_asked .everything some_entry sorted other_asked
  obtain ⟨book, _, keeps, all_in⟩ :=
    Sharing.number_keeps .everything (Layout.ofEntries entries) Sharing.keeps_empty
  have full := Sharing.number_keeps_of_register .everything Sharing.full_register
    (Layout.ofEntries entries) Sharing.full_empty
  have first_in := fun inside member => all_in inside (within_of_nodeAt found member)
  have second_in := fun inside member => all_in inside (within_of_nodeAt other_found member)
  refine ⟨first, second, found, made, other_found, other_made, ?_⟩
  rw [← remainder_eq_iff serves.sorted other_serves.sorted]
  constructor
  · intro tags
    have same : Layout.ofEntries (remainder start entries) =
        Layout.ofEntries (remainder other entries) := by
      rw [← made, ← other_made, eq_of_alike first second first_in second_in tags]
    rw [← (ofEntries_spec serves.some_entry serves.sorted).1, same,
      (ofEntries_spec other_serves.some_entry other_serves.sorted).1]
  · intro same
    have shapes : first.untag = second.untag := by
      rw [made, other_made, same]
    rw [full.eq_of_untag keeps first second first_in second_in shapes]

/-- Two of three units lead to the same entries, and the third to fewer. -/
theorem nodeTag_eq_iff_of_asked_twice :
    ∃ first second third : Layout Nat .node,
      (layout .everything [([97, 120], 1), ([97, 121], 2), ([98, 120], 1), ([98, 121], 2),
        ([99, 120], 1)]).nodeAt [97] = some first ∧
      (layout .everything [([97, 120], 1), ([97, 121], 2), ([98, 120], 1), ([98, 121], 2),
        ([99, 120], 1)]).nodeAt [98] = some second ∧
      (layout .everything [([97, 120], 1), ([97, 121], 2), ([98, 120], 1), ([98, 121], 2),
        ([99, 120], 1)]).nodeAt [99] = some third ∧
      first.nodeTag = second.nodeTag ∧ first.nodeTag ≠ third.nodeTag := by
  have sorted : Ascending.Sorted Prod.fst ([([97, 120], 1), ([97, 121], 2), ([98, 120], 1),
      ([98, 121], 2), ([99, 120], 1)] : List Entry) := by
    unfold Ascending.Sorted
    decide
  have asked : ∀ {unit : UInt16} {group : List Entry}, (unit, group) ∈ groups (goingOn
        [([97, 120], 1), ([97, 121], 2), ([98, 120], 1), ([98, 121], 2), ([99, 120], 1)]) →
      (∀ value, group ≠ [([], value)]) → Asked [([97, 120], 1), ([97, 121], 2), ([98, 120], 1),
        ([98, 121], 2), ([99, 120], 1)] [unit] :=
    fun member several => .arm .whole rfl rfl rfl member several
  have first_asked := @asked 97 [([120], 1), ([121], 2)] (by decide) nofun
  have second_asked := @asked 98 [([120], 1), ([121], 2)] (by decide) nofun
  have third_asked := @asked 99 [([120], 1)] (by decide) nofun
  obtain ⟨first, second, found, _, second_found, _, same⟩ :=
    nodeTag_eq_iff_of_asked (by decide) sorted first_asked second_asked
  obtain ⟨again, third, found_again, _, third_found, _, different⟩ :=
    nodeTag_eq_iff_of_asked (by decide) sorted first_asked third_asked
  obtain rfl := Option.some.inj (found.symm.trans found_again)
  refine ⟨first, second, third, found, second_found, third_found, ?_, ?_⟩
  · apply same.2
    intro rest value
    simp
  · intro tags
    exact absurd ((different.1 tags [121] 2).1 (by decide)) (by decide)

end PackedTrie

end SentenceBreaks.Trie
