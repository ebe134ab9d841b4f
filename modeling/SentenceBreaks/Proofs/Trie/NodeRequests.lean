import SentenceBreaks.Proofs.Trie.LayoutOfEntries
import SentenceBreaks.Proofs.Trie.Numbering
import SentenceBreaks.Proofs.Trie.Remainder

/-! The nodes that are asked for while a layout is made. Each is for what some units leave of all
entries, and it is the layout of just that: how deep it stands and what was made before do not
matter. -/

namespace SentenceBreaks.Trie

namespace Layout

open Ascending

variable {τ : Type} {p : Part}

/-- The node right behind some units; none if no node starts there. -/
def nodeAt : {p : Part} → Layout τ p → List UInt16 → Option (Layout τ .node)
  | _, .closing tag value, [] => some (.closing tag value)
  | _, .closing _ _, _ :: _ => none
  | _, .run tag value units next, [] => some (.run tag value units next)
  | _, .run _ _ units next, unit :: more =>
      if units <+: unit :: more then nodeAt next ((unit :: more).drop units.length) else none
  | _, .fork tag value next, [] => some (.fork tag value next)
  | _, .fork _ _ next, unit :: more => nodeAt next (unit :: more)
  | _, .split _ _ _ _, [] => none
  | _, .split _ middle less rest, unit :: more =>
      if unit < middle then nodeAt less (unit :: more) else nodeAt rest (unit :: more)
  | _, .list _ _ _ _, [] => none
  | _, .list _ lower own last, unit :: more =>
      if unit = own then nodeAt last more else nodeAt lower (unit :: more)
  | _, .listClosing _ lower _ _, start => nodeAt lower start
  | _, .done, _ => none
  | _, .edge _ _ _, [] => none
  | _, .edge own target rest, unit :: more =>
      if unit = own then nodeAt target more else nodeAt rest (unit :: more)
  | _, .edgeClosing _ _ rest, start => nodeAt rest start

attribute [grind =] nodeAt

/-- The entries of sequences that go on. -/
def goingOn (entries : List Entry) : List Entry := entries.filter (! ·.1.isEmpty)

/-- The units behind which a node is asked for while a layout is made, the first time for all
entries. Where all longer sequences go on alike, it is for what is behind the units they share.
Otherwise it is for what is behind each next unit, unless a single sequence ends there. -/
inductive Asked (entries : List Entry) : List UInt16 → Prop
  | whole : Asked entries []
  | shared {start : List UInt16} {first last : Entry} (asked : Asked entries start)
      (head : (goingOn (remainder start entries)).head? = some first)
      (ending : (goingOn (remainder start entries)).getLast? = some last)
      (some_unit : common first.1 last.1 ≠ []) : Asked entries (start ++ common first.1 last.1)
  | arm {start : List UInt16} {first last : Entry} {unit : UInt16} {group : List Entry}
      (asked : Asked entries start)
      (head : (goingOn (remainder start entries)).head? = some first)
      (ending : (goingOn (remainder start entries)).getLast? = some last)
      (nothing : common first.1 last.1 = [])
      (member : (unit, group) ∈ groups (goingOn (remainder start entries)))
      (several : ∀ value, group ≠ [([], value)]) : Asked entries (start ++ [unit])

/-! Finding nodes. -/

section NodeAt

variable {start more units : List UInt16} {deep middle : Layout τ .node}

theorem nodeAt_nil (part : Layout τ .node) : part.nodeAt [] = some part := by
  cases part <;> rfl

theorem nodeAt_run (tag : τ) (value : Option Int32) (next : Layout τ .node)
    (some_unit : units ≠ []) (more : List UInt16) :
    (run tag value units next).nodeAt (units ++ more) = next.nodeAt more := by
  obtain ⟨unit, rest, rfl⟩ := List.exists_cons_of_ne_nil some_unit
  have begins : unit :: rest <+: unit :: (rest ++ more) := List.prefix_append (unit :: rest) more
  rw [List.cons_append, nodeAt, if_pos begins, ← List.cons_append, List.drop_left]

/-- What is found behind a node that was found is behind the units of both. -/
theorem nodeAt_append (part : Layout τ p) (found : part.nodeAt start = some middle)
    (more : List UInt16) : part.nodeAt (start ++ more) = middle.nodeAt more := by
  induction part generalizing start with
  | closing tag value =>
      cases start with
      | nil =>
          obtain rfl := Option.some.inj found
          rfl
      | cons unit start => contradiction
  | run tag value units next ih =>
      cases start with
      | nil =>
          obtain rfl := Option.some.inj found
          rfl
      | cons unit start =>
          rw [nodeAt] at found
          split at found
          next begins =>
            obtain ⟨rest, same⟩ := begins
            rw [← same, List.drop_left] at found
            have whole : unit :: (start ++ more) = units ++ (rest ++ more) := by
              rw [← List.cons_append, ← same, List.append_assoc]
            rw [List.cons_append, nodeAt, whole, if_pos (List.prefix_append _ _), List.drop_left]
            exact ih found
          next => contradiction
  | fork tag value next ih =>
      cases start with
      | nil =>
          obtain rfl := Option.some.inj found
          rfl
      | cons unit start => exact ih found
  | split tag own less rest less_ih rest_ih =>
      cases start with
      | nil => contradiction
      | cons unit start =>
          rw [nodeAt] at found
          rw [List.cons_append, nodeAt]
          split at found
          next below =>
            rw [if_pos below]
            exact less_ih found
          next above =>
            rw [if_neg above]
            exact rest_ih found
  | list tag lower own last lower_ih last_ih =>
      cases start with
      | nil => contradiction
      | cons unit start =>
          rw [nodeAt] at found
          rw [List.cons_append, nodeAt]
          split at found
          next same =>
            rw [if_pos same]
            exact last_ih found
          next different =>
            rw [if_neg different]
            exact lower_ih found
  | listClosing tag lower own value ih =>
      have same := ih found
      cases start <;> exact same
  | done => cases start <;> contradiction
  | edge own target rest target_ih rest_ih =>
      cases start with
      | nil => contradiction
      | cons unit start =>
          rw [nodeAt] at found
          rw [List.cons_append, nodeAt]
          split at found
          next same =>
            rw [if_pos same]
            exact target_ih found
          next different =>
            rw [if_neg different]
            exact rest_ih found
  | edgeClosing own value rest ih =>
      have same := ih found
      cases start <;> exact same

theorem nodeAt_untag (part : Layout τ p) (start : List UInt16) :
    part.untag.nodeAt start = (part.nodeAt start).map untag := by
  induction part generalizing start with
  | closing => cases start <;> rfl
  | run tag value units next ih =>
      cases start with
      | nil => rfl
      | cons unit start =>
          rw [untag, nodeAt, nodeAt, ih]
          split <;> rfl
  | fork tag value next ih =>
      cases start with
      | nil => rfl
      | cons unit start => exact ih _
  | split tag own less rest less_ih rest_ih =>
      cases start with
      | nil => rfl
      | cons unit start =>
          rw [untag, nodeAt, nodeAt, less_ih, rest_ih]
          split <;> rfl
  | list tag lower own last lower_ih last_ih =>
      cases start with
      | nil => rfl
      | cons unit start =>
          rw [untag, nodeAt, nodeAt, lower_ih, last_ih]
          split <;> rfl
  | listClosing tag lower own value ih =>
      have same := ih start
      cases start <;> exact same
  | done => cases start <;> rfl
  | edge own target rest target_ih rest_ih =>
      cases start with
      | nil => rfl
      | cons unit start =>
          rw [untag, nodeAt, nodeAt, target_ih, rest_ih]
          split <;> rfl
  | edgeClosing own value rest ih =>
      have same := ih start
      cases start <;> exact same

/-- A node that is found is a part of the layout. -/
theorem mem_within_of_nodeAt (part : Layout τ p) (found : part.nodeAt start = some deep) :
    .node deep ∈ part.within := by
  induction part generalizing start with
  | closing tag value =>
      cases start with
      | nil =>
          obtain rfl := Option.some.inj found
          exact List.mem_cons_self
      | cons unit start => contradiction
  | run tag value units next ih =>
      cases start with
      | nil =>
          obtain rfl := Option.some.inj found
          exact List.mem_cons_self
      | cons unit start =>
          rw [nodeAt] at found
          split at found
          next => exact List.mem_cons_of_mem _ (ih found)
          next => contradiction
  | fork tag value next ih =>
      cases start with
      | nil =>
          obtain rfl := Option.some.inj found
          exact List.mem_cons_self
      | cons unit start => exact List.mem_cons_of_mem _ (ih found)
  | split tag own less rest less_ih rest_ih =>
      cases start with
      | nil => contradiction
      | cons unit start =>
          rw [nodeAt] at found
          split at found
          next => exact List.mem_cons_of_mem _ (List.mem_append_right _ (less_ih found))
          next => exact List.mem_cons_of_mem _ (List.mem_append_left _ (rest_ih found))
  | list tag lower own last lower_ih last_ih =>
      cases start with
      | nil => contradiction
      | cons unit start =>
          rw [nodeAt] at found
          split at found
          next => exact List.mem_cons_of_mem _ (List.mem_append_left _ (last_ih found))
          next => exact List.mem_cons_of_mem _ (List.mem_append_right _ (lower_ih found))
  | listClosing tag lower own value ih =>
      have found : lower.nodeAt start = some deep := by
        cases start <;> exact found
      exact List.mem_cons_of_mem _ (ih found)
  | done => cases start <;> contradiction
  | edge own target rest target_ih rest_ih =>
      cases start with
      | nil => contradiction
      | cons unit start =>
          rw [nodeAt] at found
          split at found
          next => exact List.mem_append_right _ (target_ih found)
          next => exact List.mem_append_left _ (rest_ih found)
  | edgeClosing own value rest ih =>
      have found : rest.nodeAt start = some deep := by
        cases start <;> exact found
      exact ih found

end NodeAt

/-! Finding nodes behind runs and edges. -/

section Built

variable {unit : UInt16} {next : Layout Unit .node} {arms : List (UInt16 × Follow)}

/-- Behind all its units a chain of runs leads to what follows it. -/
theorem nodeAt_runs (value : Option Int32) {units : List UInt16} (some_unit : units ≠ [])
    (next : Layout Unit .node) : (runs value units next).nodeAt units = some next := by
  have chain : ∀ others : List (List UInt16), (∀ piece ∈ others, piece ≠ []) →
      (others.foldr (.run () none) next).nodeAt others.flatten = some next := by
    intro others filled
    induction others with
    | nil => exact nodeAt_nil next
    | cons piece others ih =>
        obtain ⟨some_piece, rest⟩ := List.forall_mem_cons.1 filled
        rw [List.foldr_cons, List.flatten_cons, nodeAt_run _ _ _ some_piece]
        exact ih rest
  have whole := flatten_pieces units
  have filled : ∀ piece ∈ pieces units, piece ≠ [] := fun piece member => (mem_pieces member).1
  unfold runs
  cases made : pieces units with
  | nil =>
      rw [made] at whole
      exact absurd whole.symm some_unit
  | cons piece others =>
      rw [made] at whole filled
      obtain ⟨some_piece, rest⟩ := List.forall_mem_cons.1 filled
      have parts : units = piece ++ others.flatten := whole.symm
      dsimp only
      rw [parts, nodeAt_run _ _ _ some_piece]
      exact chain others rest

theorem nodeAt_edgesOf (distinct : (arms.map Prod.fst).Nodup)
    (member : (unit, .onward next) ∈ arms) (more : List UInt16) :
    (edgesOf arms).nodeAt (unit :: more) = next.nodeAt more := by
  induction arms with
  | nil => contradiction
  | cons arm rest ih =>
      obtain ⟨new, rest_distinct⟩ := List.nodup_cons.1 distinct
      rcases List.mem_cons.1 member with same | later
      · subst same
        rw [edgesOf, nodeAt, if_pos rfl]
      · have different : unit ≠ arm.1 := by
          intro same
          exact new (same ▸ List.mem_map_of_mem later)
        rcases arm with ⟨own, value | target⟩
        · rw [edgesOf, nodeAt]
          exact ih rest_distinct later
        · rw [edgesOf, nodeAt, if_neg different]
          exact ih rest_distinct later

theorem nodeAt_listOf (distinct : (arms.map Prod.fst).Nodup)
    (member : (unit, .onward next) ∈ arms) (more : List UInt16) :
    (listOf arms).nodeAt (unit :: more) = next.nodeAt more := by
  have some_arm := List.ne_nil_of_mem member
  have parts := List.dropLast_append_getLast some_arm
  unfold listOf
  rw [List.getLast?_eq_some_getLast some_arm]
  generalize arms.getLast some_arm = last at parts
  rw [← parts] at distinct member
  rw [List.map_append, List.nodup_append] at distinct
  obtain ⟨lower_distinct, _, apart⟩ := distinct
  rcases List.mem_append.1 member with lower | own
  · have different : unit ≠ last.1 :=
      apart unit (List.mem_map_of_mem lower) last.1 List.mem_cons_self
    rcases last with ⟨own, value | target⟩
    · exact nodeAt_edgesOf lower_distinct lower more
    · dsimp only
      rw [nodeAt, if_neg different]
      exact nodeAt_edgesOf lower_distinct lower more
  · obtain rfl := List.mem_singleton.1 own
    dsimp only
    rw [nodeAt, if_pos rfl]

/-- The induction is on the splits. The unit in the middle tells the half in which the arm is. -/
theorem nodeAt_branch (ascending : arms.Pairwise fun a b => a.1 < b.1)
    (member : (unit, .onward next) ∈ arms) (more : List UInt16) :
    (branch arms).nodeAt (unit :: more) = next.nodeAt more := by
  fun_induction branch arms with
  | case1 arms wide none_left => exact nodeAt_listOf (nodup_of_ascending ascending) member more
  | case2 arms wide middle follow others upper lower_ih upper_ih =>
      have parts := List.take_append_drop (arms.length / 2) arms
      rw [← parts] at ascending member
      obtain ⟨lower_ascending, upper_ascending, across⟩ := List.pairwise_append.1 ascending
      rw [nodeAt]
      rcases List.mem_append.1 member with lower | above
      · have below : unit < middle := across _ lower (middle, follow) (by simp [upper])
        rw [if_pos below]
        exact lower_ih lower_ascending lower
      · have not_below : ¬ unit < middle := by
          rw [upper] at above upper_ascending
          rcases List.mem_cons.1 above with same | later
          · obtain rfl := (Prod.mk.inj same).1
            exact UInt16.lt_irrefl _
          · exact UInt16.lt_asymm ((List.pairwise_cons.1 upper_ascending).1 _ later)
        rw [if_neg not_below]
        exact upper_ih upper_ascending above
  | case3 arms narrow => exact nodeAt_listOf (nodup_of_ascending ascending) member more

end Built

/-! The node for some entries is told by the entries alone. -/

section Entries

variable {fuel : Nat} {all longer : List Entry} {first last : Entry} {value : Option Int32}

theorem continuing_runs (fuel : Nat) (value : Option Int32) (head : longer.head? = some first)
    (ending : longer.getLast? = some last) (some_unit : common first.1 last.1 ≠ []) :
    node.continuing fuel value longer = runs value (common first.1 last.1) (node fuel
      (longer.map fun entry => (entry.1.drop (common first.1 last.1).length, entry.2))) := by
  unfold node.continuing
  rw [head, ending]
  dsimp only
  split
  next nothing => exact absurd nothing some_unit
  next => rfl

theorem continuing_fork (fuel : Nat) (value : Option Int32) (head : longer.head? = some first)
    (ending : longer.getLast? = some last) (nothing : common first.1 last.1 = []) :
    node.continuing fuel value longer = .fork () value (branch ((groups longer).map fun arm =>
      (arm.1, node.follow fuel arm.2))) := by
  unfold node.continuing
  rw [head, ending]
  dsimp only
  rw [nothing]

theorem follow_onward (fuel : Nat) {group : List Entry} (several : ∀ value, group ≠ [([], value)]) :
    node.follow fuel group = .onward (node fuel group) := by
  unfold node.follow
  split
  next value => exact absurd rfl (several value)
  next => rfl

theorem follow_congr {other : Nat} {group : List Entry}
    (same : node fuel group = node other group) :
    node.follow fuel group = node.follow other group := by
  unfold node.follow
  split
  · rfl
  · rw [same]

/-- More fuel than the longest sequence needs changes nothing. -/
theorem node_eq_node {other : Nat} (some_entry : all ≠ []) (sorted : Sorted Prod.fst all)
    (short : ∀ entry ∈ all, entry.1.length ≤ fuel)
    (other_short : ∀ entry ∈ all, entry.1.length ≤ other) : node fuel all = node other all := by
  induction fuel generalizing other all with
  | zero =>
      rcases entries_cases some_entry sorted with ⟨value, rfl⟩ | ⟨value, longer, rfl, onward⟩
      · rw [node_closing, node_closing]
      · obtain ⟨less, none_left, _⟩ := exists_fuel onward short
        contradiction
  | succ fuel ih =>
      rcases entries_cases some_entry sorted with ⟨value, rfl⟩ | ⟨value, longer, rfl, onward⟩
      · rw [node_closing, node_closing]
      · obtain ⟨less, rfl, less_short⟩ := exists_fuel onward other_short
        have longer_short : ∀ entry ∈ longer, entry.1.length ≤ fuel + 1 := fun entry member =>
          short entry (List.mem_append_right _ member)
        have head := List.head?_eq_some_head onward.some_entry
        have ending := List.getLast?_eq_some_getLast onward.some_entry
        rw [node_onward _ _ onward, node_onward _ _ onward]
        by_cases shared :
            common (longer.head onward.some_entry).1 (longer.getLast onward.some_entry).1 = []
        · rw [continuing_fork _ _ head ending shared, continuing_fork _ _ head ending shared]
          congr 2
          apply List.map_congr_left
          intro arm member
          obtain ⟨filled, arm_sorted, arm_short⟩ := fits_of_mem_groups onward longer_short member
          obtain ⟨_, _, arm_less⟩ := fits_of_mem_groups onward less_short member
          rw [follow_congr (ih filled arm_sorted arm_short arm_less)]
        · obtain ⟨_, rest_some, rest_sorted, rest_short⟩ :=
            fits_of_shared onward longer_short head ending shared
          obtain ⟨_, _, _, rest_less⟩ := fits_of_shared onward less_short head ending shared
          rw [continuing_runs _ _ head ending shared, continuing_runs _ _ head ending shared,
            ih rest_some rest_sorted rest_short rest_less]

theorem ofEntries_eq (some_entry : all ≠ []) (sorted : Sorted Prod.fst all)
    (short : ∀ entry ∈ all, entry.1.length ≤ fuel) : node fuel all = ofEntries all :=
  node_eq_node some_entry sorted short (length_le_longest all)

/-! What is asked for. -/

theorem remainder_under (units : List UInt16) (entries : List Entry) :
    remainder units (under units entries) = entries := by
  induction units with
  | nil => exact under_nil entries
  | cons unit units ih => rw [remainder_cons, behind_under_same, ih]

theorem remainder_carried {units : List UInt16} (some_unit : units ≠ []) (value : Option Int32)
    (longer : List Entry) : remainder units (carried value ++ longer) = remainder units longer := by
  obtain ⟨unit, rest, rfl⟩ := List.exists_cons_of_ne_nil some_unit
  rw [remainder_cons, behind_append, behind_carried, List.nil_append, remainder_cons]

theorem goingOn_carried (value : Option Int32) (onward : Onward longer) :
    goingOn (carried value ++ longer) = longer := by
  have ended : (carried value).filter (! ·.1.isEmpty) = [] := by
    cases value <;> rfl
  unfold goingOn
  rw [List.filter_append, ended, List.nil_append, List.filter_eq_self]
  intro entry member
  simpa using onward.keyed entry member

theorem behind_flatMap_of_not_mem {unit : UInt16} {arms : List (UInt16 × List Entry)}
    (absent : unit ∉ arms.map Prod.fst) :
    behind unit (arms.flatMap fun arm => under [arm.1] arm.2) = [] := by
  induction arms with
  | nil => rfl
  | cons arm rest ih =>
      rw [List.map_cons, List.mem_cons, not_or] at absent
      rw [List.flatMap_cons, behind_append, behind_under_of_ne (Ne.symm absent.1), ih absent.2,
        List.append_nil]

/-- Groups by the next unit hold what is behind it. -/
theorem behind_of_mem_groups {unit : UInt16} {group : List Entry} (onward : Onward longer)
    (member : (unit, group) ∈ groups longer) : behind unit longer = group := by
  obtain ⟨whole, ascending, _⟩ := groups_spec onward.keyed onward.sorted
  obtain ⟨lower, upper, cut⟩ := List.append_of_mem member
  have distinct := nodup_of_ascending ascending
  rw [cut, List.map_append, List.map_cons, List.nodup_middle, List.nodup_cons, List.mem_append,
    not_or] at distinct
  obtain ⟨⟨not_lower, not_upper⟩, _⟩ := distinct
  calc
    behind unit longer = behind unit ((groups longer).flatMap fun arm => under [arm.1] arm.2) := by
      rw [whole]
    _ = under [] group := by
      rw [cut, List.flatMap_append, List.flatMap_cons, behind_append, behind_append,
        behind_flatMap_of_not_mem not_lower, behind_flatMap_of_not_mem not_upper,
        behind_under_same, List.nil_append, List.append_nil]
    _ = group := under_nil group

/-- Entries in ascending order whose layout has the layout of what some units leave of them right
behind those units. -/
structure Serves (all : List Entry) (units : List UInt16) : Prop where
  some_entry : remainder units all ≠ []
  sorted : Sorted Prod.fst (remainder units all)
  found : (ofEntries all).nodeAt units = some (ofEntries (remainder units all))

/-- Entries of which some go on are laid out as a node that continues. -/
theorem onward_of_head (some_entry : all ≠ []) (sorted : Sorted Prod.fst all)
    (head : (goingOn all).head? = some first) :
    ∃ fuel value longer, all = carried value ++ longer ∧ Onward longer ∧ goingOn all = longer ∧
      (∀ entry ∈ longer, entry.1.length ≤ fuel + 1) ∧
      ofEntries all = node.continuing fuel value longer := by
  rcases node_cases some_entry sorted (length_le_longest all) with
    ⟨value, rfl, _⟩ | ⟨fuel, value, longer, _, rfl, onward, short, made⟩
  · contradiction
  · exact ⟨fuel, value, longer, rfl, onward, goingOn_carried value onward, short, made⟩

theorem serves_shared (some_entry : all ≠ []) (sorted : Sorted Prod.fst all)
    (head : (goingOn all).head? = some first) (ending : (goingOn all).getLast? = some last)
    (some_unit : common first.1 last.1 ≠ []) : Serves all (common first.1 last.1) := by
  obtain ⟨fuel, value, longer, whole, onward, rfl, short, made⟩ :=
    onward_of_head some_entry sorted head
  obtain ⟨parts, rest_some, rest_sorted, rest_short⟩ :=
    fits_of_shared onward short head ending some_unit
  have left : remainder (common first.1 last.1) all = (goingOn all).map fun entry =>
      (entry.1.drop (common first.1 last.1).length, entry.2) := by
    conv_lhs => rw [whole, remainder_carried some_unit, ← parts]
    exact remainder_under _ _
  refine ⟨left ▸ rest_some, left ▸ rest_sorted, ?_⟩
  rw [made, continuing_runs _ _ head ending some_unit, nodeAt_runs _ some_unit, left,
    ofEntries_eq rest_some rest_sorted rest_short]

theorem serves_arm {unit : UInt16} {group : List Entry} (some_entry : all ≠ [])
    (sorted : Sorted Prod.fst all) (head : (goingOn all).head? = some first)
    (ending : (goingOn all).getLast? = some last) (nothing : common first.1 last.1 = [])
    (member : (unit, group) ∈ groups (goingOn all)) (several : ∀ value, group ≠ [([], value)]) :
    Serves all [unit] := by
  obtain ⟨fuel, value, longer, whole, onward, rfl, short, made⟩ :=
    onward_of_head some_entry sorted head
  obtain ⟨_, ascending, _⟩ := groups_spec onward.keyed onward.sorted
  obtain ⟨filled, group_sorted, group_short⟩ := fits_of_mem_groups onward short member
  have left : remainder [unit] all = group := by
    conv_lhs => rw [whole, remainder_carried (List.cons_ne_nil _ _)]
    exact behind_of_mem_groups onward member
  have arm : (unit, .onward (node fuel group)) ∈
      (groups (goingOn all)).map fun arm => (arm.1, node.follow fuel arm.2) := by
    rw [← follow_onward fuel several]
    exact List.mem_map.2 ⟨_, member, rfl⟩
  refine ⟨left ▸ filled, left ▸ group_sorted, ?_⟩
  rw [made, continuing_fork _ _ head ending nothing, nodeAt,
    nodeAt_branch (List.pairwise_map.2 ascending) arm, nodeAt_nil, left,
    ofEntries_eq filled group_sorted group_short]

/-- Whatever is asked for is found, and is the layout of what is left of the entries there. -/
theorem serves_of_asked {start : List UInt16} (some_entry : all ≠ [])
    (sorted : Sorted Prod.fst all) (asked : Asked all start) : Serves all start := by
  have further : ∀ {start units : List UInt16}, Serves all start →
      Serves (remainder start all) units → Serves all (start ++ units) := by
    intro start units first second
    refine ⟨?_, ?_, ?_⟩
    · rw [remainder_append]
      exact second.some_entry
    · rw [remainder_append]
      exact second.sorted
    · rw [nodeAt_append _ first.found, second.found, remainder_append]
  induction asked with
  | whole => exact ⟨some_entry, sorted, nodeAt_nil _⟩
  | shared _ head ending some_unit ih =>
      exact further ih (serves_shared ih.some_entry ih.sorted head ending some_unit)
  | arm _ head ending nothing member several ih =>
      exact further ih (serves_arm ih.some_entry ih.sorted head ending nothing member several)

end Entries

end Layout

end SentenceBreaks.Trie
