import SentenceBreaks.Proofs.Trie.LayoutOfEntries

/-! Where the edges of a layout lead. An edge whose only sequence ends right behind its unit holds
the value itself, so in the layout of ascending entries no edge leads to a node that closes. -/

namespace SentenceBreaks.Trie.Layout

open Ascending

variable {τ : Type} {p : Part}

def closes : Layout τ .node → Bool
  | .closing _ _ => true
  | .run _ _ _ _ => false
  | .fork _ _ _ => false

/-- Every edge but the last one of a list leads to a node that goes on. -/
def LeadsOn : {p : Part} → Layout τ p → Prop
  | _, .closing _ _ => True
  | _, .run _ _ _ next => LeadsOn next
  | _, .fork _ _ next => LeadsOn next
  | _, .split _ _ less rest => LeadsOn less ∧ LeadsOn rest
  | _, .list _ lower _ last => LeadsOn lower ∧ LeadsOn last
  | _, .listClosing _ lower _ _ => LeadsOn lower
  | _, .done => True
  | _, .edge _ target rest => closes target = false ∧ LeadsOn target ∧ LeadsOn rest
  | _, .edgeClosing _ _ rest => LeadsOn rest

attribute [grind =] LeadsOn

@[grind =] theorem closes_untag (part : Layout τ .node) : part.untag.closes = part.closes := by
  cases part <;> rfl

theorem leadsOn_untag (part : Layout τ p) : part.untag.LeadsOn ↔ part.LeadsOn := by
  induction part <;> grind

def Follow.LeadsOn : Follow → Prop
  | .closing _ => True
  | .onward next => next.closes = false ∧ next.LeadsOn

section Arms

variable {arms : List (UInt16 × Follow)}

theorem leadsOn_edgesOf (all : ∀ arm ∈ arms, arm.2.LeadsOn) : (edgesOf arms).LeadsOn := by
  induction arms with
  | nil => trivial
  | cons arm rest ih =>
      obtain ⟨own, others⟩ := List.forall_mem_cons.1 all
      rcases arm with ⟨unit, value | next⟩
      · exact ih others
      · exact ⟨own.1, own.2, ih others⟩

theorem leadsOn_listOf (all : ∀ arm ∈ arms, arm.2.LeadsOn) : (listOf arms).LeadsOn := by
  have lower := @leadsOn_edgesOf arms.dropLast fun arm member =>
    all arm (List.dropLast_subset _ member)
  unfold listOf
  split
  · trivial
  · exact lower
  next unit next ending => exact ⟨lower, (all _ (List.mem_of_getLast? ending)).2⟩

theorem leadsOn_branch (all : ∀ arm ∈ arms, arm.2.LeadsOn) : (branch arms).LeadsOn := by
  fun_induction branch arms with
  | case1 arms wide none_left => exact leadsOn_listOf all
  | case2 arms wide unit follow others upper lower_ih upper_ih =>
      exact ⟨lower_ih fun arm member => all arm (List.mem_of_mem_take member),
        upper_ih fun arm member => all arm (List.mem_of_mem_drop member)⟩
  | case3 arms narrow => exact leadsOn_listOf all

end Arms

theorem leadsOn_runs (value : Option Int32) (units : List UInt16) {next : Layout Unit .node}
    (onward : next.LeadsOn) : (runs value units next).LeadsOn := by
  have chain : ∀ others : List (List UInt16), (others.foldr (.run () none) next).LeadsOn := by
    intro others
    induction others with
    | nil => exact onward
    | cons piece others ih => exact ih
  unfold runs
  split
  · exact onward
  next piece others _ => exact chain others

/-- The node for entries that do not all end at once goes on, since a closing node stands for one
entry only, which ends there. -/
theorem leadsOn_follow {fuel : Nat} {group : List Entry} (some_entry : group ≠ [])
    (sorted : Sorted Prod.fst group) (short : ∀ entry ∈ group, entry.1.length ≤ fuel)
    (inside : (node fuel group).LeadsOn) : (node.follow fuel group).LeadsOn := by
  obtain ⟨same, _⟩ := faithful_node fuel group some_entry sorted short
  unfold node.follow
  split
  · trivial
  next several =>
    refine ⟨?_, inside⟩
    cases made : node fuel group with
    | closing tag value =>
        rw [made, entries] at same
        exact absurd same.symm (several value)
    | run => rfl
    | fork => rfl

theorem leadsOn_continuing {fuel : Nat} (value : Option Int32) {longer : List Entry}
    (onward : Onward longer) (short : ∀ entry ∈ longer, entry.1.length ≤ fuel + 1)
    (ih : ∀ {rest : List Entry}, rest ≠ [] → Sorted Prod.fst rest →
      (∀ entry ∈ rest, entry.1.length ≤ fuel) → (node fuel rest).LeadsOn) :
    (node.continuing fuel value longer).LeadsOn := by
  unfold node.continuing
  split
  next first last head ending =>
    split
    next nothing =>
      refine leadsOn_branch fun arm member => ?_
      obtain ⟨held, held_member, rfl⟩ := List.mem_map.1 member
      obtain ⟨filled, held_sorted, held_short⟩ := fits_of_mem_groups onward short held_member
      exact leadsOn_follow filled held_sorted held_short (ih filled held_sorted held_short)
    next some_unit =>
      obtain ⟨_, rest_some, rest_sorted, rest_short⟩ :=
        fits_of_shared onward short head ending some_unit
      exact leadsOn_runs value _ (ih rest_some rest_sorted rest_short)
  next => trivial

theorem leadsOn_node (fuel : Nat) {entries : List Entry} (some_entry : entries ≠ [])
    (sorted : Sorted Prod.fst entries) (short : ∀ entry ∈ entries, entry.1.length ≤ fuel) :
    (node fuel entries).LeadsOn := by
  induction fuel generalizing entries with
  | zero =>
      rcases node_cases some_entry sorted short with ⟨value, _, made⟩ | ⟨less, _, _, none_left, _⟩
      · rw [made]
        trivial
      · contradiction
  | succ fuel ih =>
      rcases node_cases some_entry sorted short with
        ⟨value, _, made⟩ | ⟨less, value, longer, same, _, onward, longer_short, made⟩
      · rw [made]
        trivial
      · obtain rfl := Nat.succ.inj same
        rw [made]
        exact leadsOn_continuing value onward longer_short ih

/-- In the layout of ascending entries no edge leads to a node that closes. -/
theorem leadsOn_ofEntries {all : List Entry} (some_entry : all ≠ [])
    (sorted : Sorted Prod.fst all) : (ofEntries all).LeadsOn :=
  leadsOn_node _ some_entry sorted (length_le_longest all)

end SentenceBreaks.Trie.Layout
