import SentenceBreaks.Proofs.Trie.UnsharedSize

/-! Parts that a trie has once for a jump and once more behind another part. What a jump of a branch
is to lead to may also follow another part below the branch without a jump. Then it is written again
before the jump is, unless it is left for the last child of the branch in the first place. A branch
without such parts is clear: what is written for its jumps keeps its place. -/

namespace SentenceBreaks.Trie

namespace Layout

variable {τ : Type} {p : Part}

/-- The parts below a part that follow another one without a jump. -/
def inlined : {p : Part} → Layout τ p → List (Tagged τ)
  | _, .closing _ _ => []
  | _, .run _ _ _ next => .node next :: inlined next
  | _, .fork _ _ next => .branch next :: inlined next
  | _, .split _ _ less rest => .branch rest :: inlined rest ++ inlined less
  | _, .list _ lower _ last => .node last :: inlined last ++ inlined lower
  | _, .listClosing _ lower _ _ => inlined lower
  | _, .done => []
  | _, .edge _ target rest => inlined rest ++ inlined target
  | _, .edgeClosing _ _ rest => inlined rest

attribute [grind =] inlined

theorem mem_inner_of_mem_inlined {part : Layout τ p} {deep : Tagged τ}
    (member : deep ∈ part.inlined) : deep ∈ part.inner := by
  induction part with
  | closing => contradiction
  | run tag value units next ih =>
      rcases List.mem_cons.1 member with rfl | deeper
      · exact List.mem_cons_self
      · exact List.mem_cons_of_mem _ (ih deeper)
  | fork tag value next ih =>
      rcases List.mem_cons.1 member with rfl | deeper
      · exact List.mem_cons_self
      · exact List.mem_cons_of_mem _ (ih deeper)
  | split tag unit less rest less_ih rest_ih =>
      rcases List.mem_append.1 member with upper | lower
      · rcases List.mem_cons.1 upper with rfl | deeper
        · exact List.mem_append_left _ List.mem_cons_self
        · exact List.mem_append_left _ (List.mem_cons_of_mem _ (rest_ih deeper))
      · exact List.mem_append_right _ (List.mem_cons_of_mem _ (less_ih lower))
  | list tag lower unit last lower_ih last_ih =>
      rcases List.mem_append.1 member with upper | beneath
      · rcases List.mem_cons.1 upper with rfl | deeper
        · exact List.mem_append_left _ List.mem_cons_self
        · exact List.mem_append_left _ (List.mem_cons_of_mem _ (last_ih deeper))
      · exact List.mem_append_right _ (lower_ih beneath)
  | listClosing tag lower unit value ih => exact ih member
  | done => contradiction
  | edge unit target rest target_ih rest_ih =>
      rcases List.mem_append.1 member with later | own
      · exact List.mem_append_left _ (rest_ih later)
      · exact List.mem_append_right _ (List.mem_cons_of_mem _ (target_ih own))
  | edgeClosing unit value rest ih => exact ih member

end Layout

namespace Ranks

open Layout

variable {p : Part}

/-- A part ranks from a branch to its last child. -/
def Within (ranks : Ranks) (branch : Nat) (child : Option Nat) (tag : Nat) : Prop :=
  ∃ last ∈ child, ∃ rank, ranks.settled[tag]? = some rank ∧ ranks.entered.getD branch 0 ≤ rank ∧
    rank ≤ ranks.settled.getD last 0

/-- What the jumps of a branch lead to is not among the parts that follow others without a jump,
unless it is left for the last child to write. -/
def Clear (ranks : Ranks) (branch : Nat) (child : Option Nat) (heads inlined : List (Tagged Nat)) :
    Prop :=
  ∀ head ∈ heads, ranks.Within branch child head.tag ∨ ∀ inside ∈ inlined, inside.tag ≠ head.tag

/-- All branches are clear. -/
def Clears (ranks : Ranks) : {p : Part} → Layout Nat p → Prop
  | _, .closing _ _ => True
  | _, .run _ _ _ next => Clears ranks next
  | _, .fork _ _ next => Clears ranks next
  | _, .split tag unit less rest =>
      Clear ranks tag (some rest.branchTag) less.heads (split tag unit less rest).inlined ∧
        Clears ranks less ∧ Clears ranks rest
  | _, .list tag lower unit last =>
      Clear ranks tag (some last.nodeTag) lower.heads (list tag lower unit last).inlined ∧
        Clears ranks lower ∧ Clears ranks last
  | _, .listClosing tag lower _ _ =>
      Clear ranks tag Option.none lower.heads lower.inlined ∧ Clears ranks lower
  | _, .done => True
  | _, .edge _ target rest => Clears ranks target ∧ Clears ranks rest
  | _, .edgeClosing _ _ rest => Clears ranks rest

attribute [grind =] Clears

end Ranks

namespace Serial

open Layout

variable {book : List Signature} {ranks : Ranks} {reserved : Option (Nat × Nat)}
  {before after serial : Serial} {p : Part} {tag other : Nat} {units : Array UInt16}

theorem ends_place_of_present {body : Serial → Serial} (present : Present other serial)
    (different : reserved = none → tag ≠ other)
    (kept : (body serial).ends[other]? = serial.ends[other]?) :
    (place ranks reserved tag body serial).ends[other]? = serial.ends[other]? := by
  by_cases same : tag = other
  · -- What is there already is written once more only where nothing is reserved.
    subst same
    obtain ⟨stop, found⟩ := present
    cases reserved with
    | none => exact absurd rfl (different rfl)
    | some range =>
        rw [place, if_neg]
        simp [waits, found]
  · exact ends_place (Ne.symm same) kept

theorem reservedFor_ne_none (ranks : Ranks) (branch : Nat) (child : Option Nat) (serial : Serial) :
    reservedFor ranks branch child serial ≠ none := by
  unfold reservedFor
  cases child with
  | none => exact Option.some_ne_none _
  | some child =>
      dsimp only
      split <;> exact Option.some_ne_none _

theorem present_of_ends (same : after.ends[other]? = before.ends[other]?)
    (present : Present other before) : Present other after := by
  rwa [Present, same]

/-- The place of a part that is there already is left by all that is written, unless the part
follows another one without a jump. -/
theorem ends_writePart_of_present (ranks : Ranks) (part : Layout Nat p)
    (clear : ∀ inside ∈ part.inlined, inside.tag ≠ other) (reserved : Option (Nat × Nat))
    (serial : Serial) (present : Present other serial)
    (own : reserved = none → ∀ head ∈ part.heads, head.tag ≠ other) :
    (writePart ranks part reserved serial).ends[other]? = serial.ends[other]? := by
  induction part generalizing reserved serial with
  | closing tag value =>
      exact ends_place_of_present present (fun free => own free _ List.mem_cons_self) rfl
  | run tag value units next ih =>
      obtain ⟨first, beneath⟩ := List.forall_mem_cons.1 clear
      exact ends_place_of_present present (fun free => own free _ List.mem_cons_self)
        (ih beneath none serial present fun _ => List.forall_mem_singleton.2 first)
  | fork tag value next ih =>
      obtain ⟨first, beneath⟩ := List.forall_mem_cons.1 clear
      exact ends_place_of_present present (fun free => own free _ List.mem_cons_self)
        (ih beneath none serial present fun _ => List.forall_mem_singleton.2 first)
  | split tag unit less rest less_ih rest_ih =>
      obtain ⟨upper, beneath⟩ := List.forall_mem_append.1 clear
      obtain ⟨first, upper⟩ := List.forall_mem_cons.1 upper
      refine ends_place_of_present present (fun free => own free _ List.mem_cons_self) ?_
      have lower := less_ih beneath _ serial present
        fun free => absurd free (reservedFor_ne_none ranks tag (some rest.branchTag) serial)
      exact (rest_ih upper none _ (present_of_ends lower present)
        fun _ => List.forall_mem_singleton.2 first).trans lower
  | list tag lower unit last lower_ih last_ih =>
      obtain ⟨upper, beneath⟩ := List.forall_mem_append.1 clear
      obtain ⟨first, upper⟩ := List.forall_mem_cons.1 upper
      refine ends_place_of_present present (fun free => own free _ List.mem_cons_self) ?_
      have edges := lower_ih beneath _ serial present
        fun free => absurd free (reservedFor_ne_none ranks tag (some last.nodeTag) serial)
      rw [ends_writeArms]
      exact (last_ih upper none _ (present_of_ends edges present)
        fun _ => List.forall_mem_singleton.2 first).trans edges
  | listClosing tag lower unit value ih =>
      refine ends_place_of_present present (fun free => own free _ List.mem_cons_self) ?_
      rw [ends_writeArms]
      exact ih clear _ serial present fun free =>
        absurd free (reservedFor_ne_none ranks tag none serial)
  | done => rfl
  | edge unit target rest target_ih rest_ih =>
      obtain ⟨later, beneath⟩ := List.forall_mem_append.1 clear
      have others := rest_ih later reserved serial present
        fun free => (List.forall_mem_cons.1 (own free)).2
      exact (target_ih beneath reserved _ (present_of_ends others present) fun free =>
        List.forall_mem_singleton.2 (List.forall_mem_cons.1 (own free)).1).trans others
  | edgeClosing unit value rest ih => exact ih clear reserved serial present own

/-- Where the parts that go on have numbers of their own, nothing follows another part in the place
of what a jump leads to. -/
theorem apart_of_spread (edges : Layout Nat p) (edges_only : p = .edges)
    (spread : Spread book ranks edges.inner) (leadsOn : edges.LeadsOn) :
    ∀ head ∈ edges.targets, ∀ deep ∈ edges.inlined, deep.tag ≠ head.tag := by
  induction edges with
  | closing => contradiction
  | run => contradiction
  | fork => contradiction
  | split => contradiction
  | list => contradiction
  | listClosing => contradiction
  | done => exact List.forall_mem_nil _
  | edge unit target rest _ ih =>
      have onward := @goesOn_of_mem_targets _ (edge unit target rest) leadsOn
      obtain ⟨own, others⟩ := List.forall_mem_cons.1 onward
      have apart : Spread book ranks (rest.inner ++ ([.node target] ++ target.inner)) := spread
      refine List.forall_mem_cons.2 ⟨fun deep member => ?_, fun head member deep deeper => ?_⟩
      · rcases List.mem_append.1 member with later | beneath
        · exact apart.tag_ne (mem_inner_of_mem_inlined later) List.mem_cons_self (Or.inr own)
        · exact (apart.right.tag_ne List.mem_cons_self (mem_inner_of_mem_inlined beneath)
            (Or.inl own)).symm
      · rcases List.mem_append.1 deeper with later | beneath
        · exact ih rfl apart.left leadsOn.2.2 head member deep later
        · exact (apart.tag_ne (mem_inner_of_mem_targets member)
            (List.mem_cons_of_mem _ (mem_inner_of_mem_inlined beneath))
            (Or.inl (others head member))).symm
  | edgeClosing unit value rest ih => exact ih rfl spread leadsOn

theorem clears_of_spread (part : Layout Nat p) (spread : Spread book ranks part.within)
    (leadsOn : part.LeadsOn) : ranks.Clears part := by
  induction part with
  | closing => trivial
  | run tag value units next ih => exact ih spread.tail leadsOn
  | fork tag value next ih => exact ih spread.tail leadsOn
  | split tag unit less rest less_ih rest_ih =>
      have apart : Spread book ranks (rest.within ++ less.within) := spread.tail
      refine ⟨List.forall_mem_singleton.2 (Or.inr fun deep member => ?_),
        less_ih apart.right leadsOn.1, rest_ih apart.left leadsOn.2⟩
      have within : Spread book ranks ([.branch less] ++ less.inner) := apart.right
      rcases List.mem_append.1 member with upper | beneath
      · refine apart.tag_ne ?_ List.mem_cons_self (Or.inr rfl)
        exact List.cons_subset_cons _ (fun _ => mem_inner_of_mem_inlined) upper
      · exact (within.tag_ne List.mem_cons_self (mem_inner_of_mem_inlined beneath)
          (Or.inl rfl)).symm
  | list tag lower unit last lower_ih last_ih =>
      have apart : Spread book ranks (last.within ++ lower.inner) := spread.tail
      have onward := goesOn_of_mem_targets leadsOn.1
      refine ⟨fun head member => Or.inr fun deep deeper => ?_, lower_ih apart.right leadsOn.1,
        last_ih apart.left leadsOn.2⟩
      rcases List.mem_append.1 deeper with upper | beneath
      · refine apart.tag_ne ?_ (mem_inner_of_mem_targets member) (Or.inr (onward head member))
        exact List.cons_subset_cons _ (fun _ => mem_inner_of_mem_inlined) upper
      · exact apart_of_spread lower rfl apart.right leadsOn.1 head member deep beneath
  | listClosing tag lower unit value ih =>
      have beneath : Spread book ranks lower.inner := spread.tail
      exact ⟨fun head member => Or.inr (apart_of_spread lower rfl beneath leadsOn head member),
        ih beneath leadsOn⟩
  | done => trivial
  | edge unit target rest target_ih rest_ih =>
      have apart : Spread book ranks (rest.within ++ target.within) := spread
      exact ⟨target_ih apart.right leadsOn.2.1, rest_ih apart.left leadsOn.2.2⟩
  | edgeClosing unit value rest ih => exact ih spread leadsOn

end Serial

namespace PackedTrie

variable {entries : List Entry}

/-- All branches of the trie that is built of some entries are clear. -/
def Clears (sharing : Sharing) (entries : List Entry) : Prop :=
  ∀ draft, Draft.empty.addAll entries = .ok draft →
    (Ranks.ofLayout (layout sharing draft.entries)).Clears (layout sharing draft.entries)

theorem clears_closings (some_entry : entries ≠ []) (sorted : Ascending.Sorted Prod.fst entries) :
    (Ranks.ofLayout (layout .closings entries)).Clears (layout .closings entries) := by
  obtain ⟨book, booked⟩ := layout_booked .closings entries
  obtain ⟨_, settled⟩ := Ranks.ofLayout_orderly _ booked
  have distinct := (Sharing.number_apart (Layout.ofEntries entries) ⟨∅, 0⟩).distinct
  exact Serial.clears_of_spread _ ⟨booked, settled, distinct⟩
    (leadsOn_layout .closings some_entry sorted)

end PackedTrie

end SentenceBreaks.Trie
