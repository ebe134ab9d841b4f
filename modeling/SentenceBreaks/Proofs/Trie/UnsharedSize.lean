import SentenceBreaks.Proofs.Trie.BuiltTrie
import SentenceBreaks.Proofs.Trie.SharedSize

/-! Without sharing the units are as many as the layout says. Parts that go on then have numbers of
their own, so each of them is still unwritten when its turn comes, nothing holds it back, and the
jump to it is as long as what was written since. -/

namespace SentenceBreaks.Trie

/-- Whether more sequences go on from a part. -/
def Tagged.goesOn {τ : Type} : Tagged τ → Bool
  | .node part => !part.closes
  | .branch _ => true

/-- Parts whose numbers come from a range. Those that go on have each a number of their own. -/
structure Apart (low high : Nat) (parts : List (Tagged Nat)) : Prop where
  ordered : low ≤ high
  ranged : ∀ part ∈ parts, part.goesOn → low ≤ part.tag ∧ part.tag < high
  distinct : parts.Pairwise fun first second =>
    first.goesOn → second.goesOn → first.tag ≠ second.tag

namespace Apart

variable {low mid high : Nat} {part : Tagged Nat} {above below parts : List (Tagged Nat)}

theorem nil : Apart low low [] := ⟨Nat.le_refl _, List.forall_mem_nil _, List.Pairwise.nil⟩

theorem closing (ordered : low ≤ high) (ends : part.goesOn = false) : Apart low high [part] where
  ordered := ordered
  ranged := by
    refine List.forall_mem_singleton.2 fun onward => ?_
    rw [ends] at onward
    contradiction
  distinct := List.pairwise_singleton _ _

theorem cons (apart : Apart low high parts) (own : part.tag = high) :
    Apart low (high + 1) (part :: parts) where
  ordered := Nat.le_succ_of_le apart.ordered
  ranged := by
    refine List.forall_mem_cons.2 ⟨fun _ => ⟨own ▸ apart.ordered, own ▸ Nat.lt_succ_self _⟩, ?_⟩
    intro other member onward
    have range := apart.ranged other member onward
    exact ⟨range.1, Nat.lt_succ_of_lt range.2⟩
  distinct := by
    refine List.pairwise_cons.2 ⟨fun other member _ onward => ?_, apart.distinct⟩
    have range := apart.ranged other member onward
    omega

theorem append (upper : Apart mid high above) (lower : Apart low mid below) :
    Apart low high (above ++ below) where
  ordered := Nat.le_trans lower.ordered upper.ordered
  ranged := by
    refine List.forall_mem_append.2 ⟨fun part member onward => ?_, fun part member onward => ?_⟩
    · have range := upper.ranged part member onward
      exact ⟨Nat.le_trans lower.ordered range.1, range.2⟩
    · have range := lower.ranged part member onward
      exact ⟨range.1, Nat.lt_of_lt_of_le range.2 upper.ordered⟩
  distinct := by
    refine List.pairwise_append.2 ⟨upper.distinct, lower.distinct, ?_⟩
    intro first first_member second second_member first_onward second_onward
    have first_range := upper.ranged first first_member first_onward
    have second_range := lower.ranged second second_member second_onward
    omega

end Apart

namespace Sharing

open Layout

theorem count_register_le (sharing : Sharing) (signature : Signature) (registry : Registry) :
    registry.count ≤ (sharing.register signature registry).2.count := by
  unfold register
  split
  · split
    · exact Nat.le_refl _
    · exact Nat.le_succ _
  · exact Nat.le_succ _

/-- Parts that go on are numbered one after the other when only closing nodes are shared. -/
theorem number_apart {p : Part} (part : Layout Unit p) (registry : Registry) :
    Apart registry.count (closings.number part registry).2.count
      (closings.number part registry).1.within := by
  induction part generalizing registry with
  | closing tag value => exact .closing (count_register_le _ _ _) rfl
  | run tag value units next ih => exact (ih registry).cons rfl
  | fork tag value next ih => exact (ih registry).cons rfl
  | split tag unit less rest less_ih rest_ih =>
      exact ((rest_ih _).append (less_ih registry)).cons rfl
  | list tag lower unit last lower_ih last_ih =>
      exact ((last_ih _).append (lower_ih registry)).cons rfl
  | listClosing tag lower unit value ih => exact Apart.cons (ih registry) rfl
  | done => exact .nil
  | edge unit target rest target_ih rest_ih => exact (rest_ih _).append (target_ih registry)
  | edgeClosing unit value rest ih => exact ih registry

end Sharing

namespace Serial

open Layout

variable {book : List Signature} {ranks : Ranks} {reserved : Option (Nat × Nat)} {serial : Serial}
  {part : Tagged Nat} {parts above below : List (Tagged Nat)} {p : Part}

/-- Parts in a book, all ranked, of which no two that go on have one number. -/
structure Spread (book : List Signature) (ranks : Ranks) (parts : List (Tagged Nat)) : Prop where
  booked : ∀ part ∈ parts, Booked book part
  settled : ∀ part ∈ parts, ∃ rank, ranks.settled[part.tag]? = some rank
  distinct : parts.Pairwise fun first second =>
    first.goesOn → second.goesOn → first.tag ≠ second.tag

namespace Spread

theorem tail (spread : Spread book ranks (part :: parts)) : Spread book ranks parts where
  booked := (List.forall_mem_cons.1 spread.booked).2
  settled := (List.forall_mem_cons.1 spread.settled).2
  distinct := spread.distinct.of_cons

theorem left (spread : Spread book ranks (above ++ below)) : Spread book ranks above where
  booked := (List.forall_mem_append.1 spread.booked).1
  settled := (List.forall_mem_append.1 spread.settled).1
  distinct := (List.pairwise_append.1 spread.distinct).1

theorem right (spread : Spread book ranks (above ++ below)) : Spread book ranks below where
  booked := (List.forall_mem_append.1 spread.booked).2
  settled := (List.forall_mem_append.1 spread.settled).2
  distinct := (List.pairwise_append.1 spread.distinct).2.1

/-- A part that goes on has no number of another part. Equal numbers would tell that the other one
is the same and goes on too. -/
theorem tag_ne (spread : Spread book ranks (above ++ below)) {first second : Tagged Nat}
    (first_member : first ∈ above) (second_member : second ∈ below)
    (onward : first.goesOn ∨ second.goesOn) : first.tag ≠ second.tag := by
  intro same
  have equal := (spread.left.booked first first_member).eq_of_tag
    (spread.right.booked second second_member) same
  subst equal
  have onward := onward.elim id id
  exact (List.pairwise_append.1 spread.distinct).2.2 first first_member first second_member onward
    onward rfl

theorem swap (spread : Spread book ranks (above ++ below)) :
    Spread book ranks (below ++ above) where
  booked := List.forall_mem_append.2 ⟨spread.right.booked, spread.left.booked⟩
  settled := List.forall_mem_append.2 ⟨spread.right.settled, spread.left.settled⟩
  distinct := by
    refine List.pairwise_append.2 ⟨spread.right.distinct, spread.left.distinct, ?_⟩
    exact fun first first_member second second_member first_onward _ =>
      (spread.tag_ne second_member first_member (Or.inr first_onward)).symm

end Spread

theorem ends_place {tag other : Nat} {body : Serial → Serial} (different : other ≠ tag)
    (kept : (body serial).ends[other]? = serial.ends[other]?) :
    (place ranks reserved tag body serial).ends[other]? = serial.ends[other]? := by
  unfold place
  split
  · unfold finish
    dsimp only
    rw [Std.HashMap.getElem?_insert, if_neg (by simpa using Ne.symm different), kept]
  · rfl

/-- Writing a part leaves the places of all parts that are not within it. -/
theorem ends_writePart_of_ne (ranks : Ranks) (part : Layout Nat p) (other : Nat)
    (foreign : ∀ inside ∈ part.within, other ≠ inside.tag) (reserved : Option (Nat × Nat))
    (serial : Serial) :
    (writePart ranks part reserved serial).ends[other]? = serial.ends[other]? := by
  induction part generalizing reserved serial with
  | closing tag value => exact ends_place (foreign _ (List.mem_cons_self ..)) rfl
  | run tag value units next ih =>
      obtain ⟨own, beneath⟩ := List.forall_mem_cons.1 foreign
      exact ends_place own (ih beneath none serial)
  | fork tag value next ih =>
      obtain ⟨own, beneath⟩ := List.forall_mem_cons.1 foreign
      exact ends_place own (ih beneath none serial)
  | split tag unit less rest less_ih rest_ih =>
      obtain ⟨own, beneath⟩ := List.forall_mem_cons.1 foreign
      obtain ⟨upper, lower⟩ := List.forall_mem_append.1 beneath
      exact ends_place own ((rest_ih upper none _).trans (less_ih lower _ serial))
  | list tag lower unit last lower_ih last_ih =>
      obtain ⟨own, beneath⟩ := List.forall_mem_cons.1 foreign
      obtain ⟨upper, lower⟩ := List.forall_mem_append.1 beneath
      refine ends_place own ?_
      rw [ends_writeArms]
      exact (last_ih upper none _).trans (lower_ih lower _ serial)
  | listClosing tag lower unit value ih =>
      obtain ⟨own, beneath⟩ := List.forall_mem_cons.1 foreign
      refine ends_place own ?_
      rw [ends_writeArms]
      exact ih beneath _ serial
  | done => rfl
  | edge unit target rest target_ih rest_ih =>
      obtain ⟨later, own⟩ := List.forall_mem_append.1 foreign
      exact (target_ih own reserved _).trans (rest_ih later reserved serial)
  | edgeClosing unit value rest ih => exact ih foreign reserved serial

/-- The parts that go on are not there yet. -/
def Unwritten (parts : List (Tagged Nat)) (serial : Serial) : Prop :=
  ∀ part ∈ parts, part.goesOn → serial.ends[part.tag]? = none

/-- Nothing can hold a part back: there is nothing reserved, or it goes on and its rank is free. -/
def Free (ranks : Ranks) (reserved : Option (Nat × Nat)) (part : Tagged Nat) : Prop :=
  reserved = none ∨ part.goesOn ∧ ¬ HeldBack ranks reserved part.tag

theorem waits_of_free (free : Free ranks reserved part)
    (settled : ∃ rank, ranks.settled[part.tag]? = some rank)
    (unwritten : part.goesOn → serial.ends[part.tag]? = none) :
    reserved.all (waits ranks · part.tag serial) := by
  obtain ⟨rank, found⟩ := settled
  rcases free with rfl | ⟨onward, free⟩
  · rfl
  · cases reserved with
    | none => rfl
    | some range =>
        have outside : ¬ (range.1 ≤ rank ∧ rank ≤ range.2) := fun inside =>
          free ⟨range, rank, rfl, found, inside⟩
        simp only [Option.all_some, waits, unwritten onward, found, Bool.or_eq_true,
          decide_eq_true_eq]
        omega

/-- What is not within a part stays where it is when the part is written. -/
theorem ends_after {written : Layout Nat p} (spread : Spread book ranks (written.within ++ parts))
    (member : part ∈ parts) (onward : part.goesOn) (reserved : Option (Nat × Nat))
    (serial : Serial) :
    (writePart ranks written reserved serial).ends[part.tag]? = serial.ends[part.tag]? :=
  ends_writePart_of_ne ranks written part.tag
    (fun _ inside => (spread.tag_ne inside member (Or.inr onward)).symm) reserved serial

theorem Unwritten.after {written : Layout Nat p}
    (spread : Spread book ranks (written.within ++ parts)) (unwritten : Unwritten parts serial) :
    Unwritten parts (writePart ranks written reserved serial) := by
  intro part member onward
  rw [ends_after spread member onward]
  exact unwritten part member onward

/-- The units of a part, and of edges in front of other units, are as many as the layout says, and
what jumps lead to stands where it was written. -/
structure Plain (ranks : Ranks) (part : Layout Nat p) (reserved : Option (Nat × Nat))
    (serial : Serial) : Prop where
  size : (writePart ranks part reserved serial).buffer.filled =
    serial.buffer.filled + part.plainSize
  ends : p ≠ .edges → ∀ head ∈ part.heads, (writePart ranks part reserved serial).ends[head.tag]? =
    some (writePart ranks part reserved serial).buffer.filled
  arms : p = .edges → ∀ (above : Serial) (ahead : Nat),
    (∀ head ∈ part.heads,
      above.ends[head.tag]? = (writePart ranks part reserved serial).ends[head.tag]?) →
    above.buffer.filled = (writePart ranks part reserved serial).buffer.filled + ahead →
      (writeArms part.arms above).buffer.filled = above.buffer.filled + part.armsSize ahead

/-- A node or a branch that nothing holds back is written as if nothing were reserved. -/
theorem plain_of_size {part : Layout Nat p} (tagged : p ≠ .edges)
    (spread : Spread book ranks part.within) (unwritten : Unwritten part.within serial)
    (free : ∀ head ∈ part.heads, Free ranks reserved head)
    (size : (writePart ranks part none serial).buffer.filled =
      serial.buffer.filled + part.plainSize) : Plain ranks part reserved serial := by
  obtain ⟨head, member⟩ : ∃ head, head ∈ part.heads := by
    cases p with
    | node => exact ⟨_, List.mem_singleton.2 rfl⟩
    | branch => exact ⟨_, List.mem_singleton.2 rfl⟩
    | edges => contradiction
  have inside := mem_within_of_mem_heads member
  have same : writePart ranks part reserved serial = writePart ranks part none serial := by
    rw [writePart_eq ranks part tagged reserved serial head member, if_pos]
    exact waits_of_free (free head member) (spread.settled head inside) (unwritten head inside)
  exact ⟨same ▸ size, fun _ => same ▸ ends_writePart ranks part tagged serial, (absurd · tagged)⟩

theorem distance_of_ends {tag stop : Nat} (found : serial.ends[tag]? = some stop) :
    serial.distance tag = serial.buffer.filled - stop := by
  rw [distance, Std.HashMap.getD_eq_getD_getElem?, found, Option.getD_some]

theorem goesOn_of_mem_targets {part : Layout Nat p} (leadsOn : part.LeadsOn) :
    ∀ head ∈ part.targets, head.goesOn := by
  induction part with
  | edge unit target rest _ ih =>
      obtain ⟨onward, _, leadsOn⟩ := leadsOn
      refine List.forall_mem_cons.2 ⟨?_, ih leadsOn⟩
      rw [Tagged.goesOn, onward]
      rfl
  | edgeClosing unit value rest ih => exact ih leadsOn
  | _ => exact List.forall_mem_nil _

/-- Nothing below a branch is held back: it would have to be within the last child, and what is
there has other numbers. -/
theorem free_of_shut {branch child : Nat} {inside heads lower : List (Tagged Nat)}
    (spread : Spread book ranks (inside ++ lower)) (within : ∀ head ∈ heads, head ∈ lower)
    (onward : ∀ head ∈ heads, head.goesOn)
    (shut : Ranks.Reserves.Shut ranks branch child heads inside) :
    ∀ head ∈ heads, Free ranks (reservedFor ranks branch (some child) serial) head := by
  refine fun head member => Or.inr ⟨onward head member, fun held => ?_⟩
  exact spread.tag_ne (mem_of_heldBack shut member held) (within head member)
    (Or.inl (onward head member)) rfl

/-- The induction follows the writing. That the parts within are unwritten and have numbers of their
own carries it: nothing that is written meanwhile can take their places. -/
theorem plain_writePart (part : Layout Nat p) (orderly : ranks.Orderly book)
    (spread : Spread book ranks part.within) (leadsOn : part.LeadsOn)
    (reserved : Option (Nat × Nat)) (serial : Serial) (unwritten : Unwritten part.within serial)
    (free : ∀ head ∈ part.heads, Free ranks reserved head) : Plain ranks part reserved serial := by
  induction part generalizing reserved serial with
  | closing tag value => exact plain_of_size Part.node_ne_edges spread unwritten free rfl
  | run tag value units next ih =>
      refine plain_of_size Part.node_ne_edges spread unwritten free ?_
      have below := ih spread.tail leadsOn none serial (List.forall_mem_cons.1 unwritten).2
        fun _ _ => Or.inl rfl
      have size := below.size
      change (writePart ranks next none serial).buffer.filled + _ = _
      simp only [plainSize]
      omega
  | fork tag value next ih =>
      refine plain_of_size Part.node_ne_edges spread unwritten free ?_
      have below := ih spread.tail leadsOn none serial (List.forall_mem_cons.1 unwritten).2
        fun _ _ => Or.inl rfl
      have size := below.size
      change (writePart ranks next none serial).buffer.filled + _ = _
      simp only [plainSize]
      omega
  | split tag unit less rest less_ih rest_ih =>
      refine plain_of_size Part.branch_ne_edges spread unwritten free ?_
      obtain ⟨rank, ranked⟩ := spread.settled _ (List.mem_cons_self ..)
      have shut := (orderly _ rank (spread.booked _ (List.mem_cons_self ..)) ranked).2
      have apart : Spread book ranks (rest.within ++ less.within) := spread.tail
      obtain ⟨rest_unwritten, less_unwritten⟩ :=
        List.forall_mem_append.1 (List.forall_mem_cons.1 unwritten).2
      have lower := less_ih apart.right leadsOn.1
        (reservedFor ranks tag (some rest.branchTag) serial) serial less_unwritten
        (free_of_shut apart (fun _ => mem_within_of_mem_heads) (List.forall_mem_singleton.2 rfl)
          shut)
      have upper := rest_ih apart.left leadsOn.2 none
        (writePart ranks less (reservedFor ranks tag (some rest.branchTag) serial) serial)
        (Unwritten.after apart.swap rest_unwritten) fun _ _ => Or.inl rfl
      have found := (ends_after apart (List.mem_cons_self ..) rfl none _).trans
        (lower.ends Part.branch_ne_edges _ (List.mem_singleton.2 rfl))
      have far := distance_of_ends found
      rw [upper.size, Nat.add_sub_cancel_left] at far
      have lower_size := lower.size
      have upper_size := upper.size
      change (writePart ranks rest none _).buffer.filled + (unit :: Codec.encodeJump
        ((writePart ranks rest none _).distance (Tagged.branch less).tag)).length = _
      rw [far, List.length_cons]
      simp only [plainSize]
      omega
  | list tag lower unit last lower_ih last_ih =>
      refine plain_of_size Part.branch_ne_edges spread unwritten free ?_
      obtain ⟨rank, ranked⟩ := spread.settled _ (List.mem_cons_self ..)
      have shut := (orderly _ rank (spread.booked _ (List.mem_cons_self ..)) ranked).2
      have apart : Spread book ranks (last.within ++ lower.within) := spread.tail
      obtain ⟨last_unwritten, lower_unwritten⟩ :=
        List.forall_mem_append.1 (List.forall_mem_cons.1 unwritten).2
      have onward := goesOn_of_mem_targets leadsOn.1
      have edges := lower_ih apart.right leadsOn.1
        (reservedFor ranks tag (some last.nodeTag) serial) serial lower_unwritten
        (free_of_shut apart (fun _ => mem_within_of_mem_heads) onward shut)
      have child := last_ih apart.left leadsOn.2 none
        (writePart ranks lower (reservedFor ranks tag (some last.nodeTag) serial) serial)
        (Unwritten.after apart.swap last_unwritten) fun _ _ => Or.inl rfl
      have edges_size := edges.size
      have child_size := child.size
      have arms := edges.arms rfl ((writePart ranks last none _).write [unit]) (1 + last.plainSize)
        (fun head member =>
          ends_after apart (mem_within_of_mem_heads member) (onward head member) none _)
        (by rw [filled_write, List.length_singleton]; omega)
      change (writeArms lower.arms ((writePart ranks last none _).write [unit])).buffer.filled = _
      rw [arms, filled_write, List.length_singleton]
      simp only [plainSize]
      omega
  | listClosing tag lower unit value ih =>
      refine plain_of_size Part.branch_ne_edges spread unwritten free ?_
      obtain ⟨rank, ranked⟩ := spread.settled _ (List.mem_cons_self ..)
      have shut := (orderly _ rank (spread.booked _ (List.mem_cons_self ..)) ranked).2
      have onward := @goesOn_of_mem_targets _ lower leadsOn
      have edges := ih spread.tail leadsOn (reservedFor ranks tag none serial) serial
        (List.forall_mem_cons.1 unwritten).2 fun head member =>
          Or.inr ⟨onward head member, not_heldBack_of_free (shut head member)⟩
      have edges_size := edges.size
      have arms := edges.arms rfl ((writePart ranks lower _ serial).write
        (unit :: closingUnits value)) (1 + (closingUnits value).length) (fun _ _ => rfl)
        (by rw [filled_write, List.length_cons]; omega)
      change (writeArms lower.arms ((writePart ranks lower _ serial).write
        (unit :: closingUnits value))).buffer.filled = _
      rw [arms, filled_write, List.length_cons]
      simp only [plainSize]
      omega
  | done => exact ⟨rfl, (absurd rfl ·), fun _ _ _ _ _ => rfl⟩
  | edge unit target rest target_ih rest_ih =>
      obtain ⟨onward, target_leads, rest_leads⟩ := leadsOn
      obtain ⟨own_free, others_free⟩ := List.forall_mem_cons.1 free
      have apart : Spread book ranks (rest.within ++ target.within) := spread
      obtain ⟨rest_unwritten, target_unwritten⟩ := List.forall_mem_append.1 unwritten
      have others := rest_ih apart.left rest_leads reserved serial rest_unwritten others_free
      have own := target_ih apart.right target_leads reserved (writePart ranks rest reserved serial)
        (Unwritten.after apart target_unwritten) (List.forall_mem_singleton.2 own_free)
      have others_size := others.size
      have own_size := own.size
      refine ⟨?_, (absurd rfl ·), fun _ above ahead same near => ?_⟩
      · rw [writePart]
        simp only [plainSize]
        omega
      · rw [writePart] at same near
        obtain ⟨own_same, others_same⟩ := List.forall_mem_cons.1 same
        have arms := others.arms rfl above (ahead + target.plainSize)
          (fun head member => (others_same head member).trans
            (ends_after apart.swap (mem_within_of_mem_heads member)
              (goesOn_of_mem_targets rest_leads head member) reserved _))
          (by omega)
        have found := own_same.trans (own.ends Part.node_ne_edges _ (List.mem_singleton.2 rfl))
        rw [← ends_writeArms rest.arms] at found
        have far : (writeArms rest.arms above).distance target.nodeTag =
            rest.armsSize (ahead + target.plainSize) + ahead := by
          have far := distance_of_ends found
          rw [Tagged.tag] at far
          omega
        rw [Layout.arms, writeArms_cons, filled_write, armUnits, List.length_cons, arms, far]
        simp only [armsSize]
        omega
  | edgeClosing unit value rest ih =>
      have others := ih spread leadsOn reserved serial unwritten free
      refine ⟨others.size, (absurd rfl ·), fun _ above ahead same near => ?_⟩
      have arms := others.arms rfl above ahead same near
      rw [Layout.arms, writeArms_cons, filled_write, arms, List.length_cons, armUnits]
      simp only [armsSize]
      omega

end Serial

namespace PackedTrie

variable {entries : List Entry}

theorem size_ofEntries (sharing : Sharing) (entries : List Entry) :
    (ofEntries sharing entries).units.size =
      (Serial.ofLayout (capacity entries) (layout sharing entries)).buffer.filled := by
  rw [← Array.length_toList, ofEntries, TailBuffer.toList_units, TailBuffer.length_contents]

/-- In less than 2 ^ 32 units every jump can be said. -/
theorem jumpsFit_of_size {sharing : Sharing} {trie : PackedTrie}
    (built : ofList sharing entries = .ok trie) (small : trie.units.size < 2 ^ 32) :
    JumpsFit sharing entries := by
  intro draft added jump member
  have some_entry : entries ≠ [] := by
    rintro rfl
    contradiction
  obtain ⟨short, distinct⟩ := Draft.addAll_empty_eq_ok added
  obtain ⟨ascending, taken, _, _, _, made⟩ :=
    ofList_ok some_entry distinct (List.forall_mem_map.2 short)
  obtain rfl := Except.ok.inj (taken.symm.trans added)
  obtain rfl := Except.ok.inj ((made sharing).symm.trans built)
  rw [size_ofEntries] at small
  exact Nat.lt_of_le_of_lt (Serial.jumps_le _ _ _ _ jump member) small

theorem leadsOn_layout (sharing : Sharing) (some_entry : entries ≠ [])
    (sorted : Ascending.Sorted Prod.fst entries) : (layout sharing entries).LeadsOn := by
  rw [← Layout.leadsOn_untag, layout, Sharing.untag_number]
  exact Layout.leadsOn_ofEntries some_entry sorted

/-- When only closing nodes are shared the units are as many as the layout says. -/
theorem size_ofEntries_closings (some_entry : entries ≠ [])
    (sorted : Ascending.Sorted Prod.fst entries) :
    (ofEntries .closings entries).units.size = (layout .closings entries).plainSize := by
  obtain ⟨book, booked⟩ := layout_booked .closings entries
  obtain ⟨orderly, settled⟩ := Ranks.ofLayout_orderly _ booked
  have distinct := (Sharing.number_apart (Layout.ofEntries entries) ⟨∅, 0⟩).distinct
  have plain := Serial.plain_writePart _ orderly ⟨booked, settled, distinct⟩
    (leadsOn_layout .closings some_entry sorted) none ⟨.withCapacity (capacity entries), ∅⟩
    (fun _ _ _ => Std.HashMap.getElem?_empty) fun _ _ => Or.inl rfl
  rw [size_ofEntries]
  exact plain.size.trans (Nat.zero_add _)

theorem plainSize_layout (sharing : Sharing) (entries : List Entry) :
    (layout sharing entries).plainSize = (Layout.ofEntries entries).plainSize := by
  rw [← Layout.plainSize_untag, layout, Sharing.untag_number]

/-- Sharing all parts never takes more units than sharing closing nodes only, if no jump can need
three units. -/
theorem size_ofEntries_everything_le (some_entry : entries ≠ [])
    (sorted : Ascending.Sorted Prod.fst entries)
    (room : (ofEntries .closings entries).units.size ≤ Serial.jumpRoom) :
    (ofEntries .everything entries).units.size ≤ (ofEntries .closings entries).units.size := by
  have sound := (@layout_faithful .everything entries some_entry sorted).2
  rw [size_ofEntries_closings some_entry sorted, plainSize_layout,
    ← plainSize_layout .everything] at room ⊢
  have thrifty := Serial.thrifty (.ofLayout (layout .everything entries)) _ sound
    (leadsOn_layout .everything some_entry sorted)
  have size := thrifty.size none ⟨.withCapacity (capacity entries), ∅⟩ (by
    exact (Nat.zero_add _).symm ▸ room)
  rw [size_ofEntries]
  exact Nat.le_trans size (Nat.le_of_eq (Nat.zero_add _))

/-- For the same entries, sharing all parts never takes more units than sharing closing nodes only,
as long as these leave no room for a jump of three units. -/
theorem size_ofList_everything_le (entries : List Entry) (some_entry : entries ≠ [])
    (distinct : (keys entries).Nodup) (short : ∀ key ∈ keys entries, key.length ≤ lengthLimit) :
    ∃ plain shared, ofList .closings entries = .ok plain ∧ ofList .everything entries = .ok shared ∧
      (plain.units.size ≤ 0x3feffff → shared.units.size ≤ plain.units.size) := by
  obtain ⟨ascending, _, some_ascending, _, sorted, built⟩ := ofList_ok some_entry distinct short
  exact ⟨_, _, built .closings, built .everything,
    size_ofEntries_everything_le some_ascending sorted⟩

/-- Two sequences that end in the same way. -/
theorem size_ofList_everything_le_ending :
    ∃ plain shared, ofList .closings [([97, 120], 1), ([98, 120], 1)] = .ok plain ∧
      ofList .everything [([97, 120], 1), ([98, 120], 1)] = .ok shared ∧
      plain.units.size = 10 ∧ shared.units.size ≤ plain.units.size := by
  obtain ⟨plain, shared, plain_built, shared_built, smaller⟩ := size_ofList_everything_le
    [([97, 120], 1), ([98, 120], 1)] (by decide) (by decide) (by decide)
  have shape : Layout.ofEntries [([97, 120], 1), ([98, 120], 1)] =
      .fork () none (.list () (.edge 97 (.run () none [120] (.closing () 1)) .done) 98
        (.run () none [120] (.closing () 1))) := by
    simp [Layout.ofEntries, Layout.node, Layout.node.continuing, Layout.node.follow, Layout.common,
      Layout.groups, Layout.branch, Layout.listOf, Layout.edgesOf, Layout.runs, Layout.pieces,
      Layout.pieces.extend, Layout.listLimit]
  have same : ofList .closings [([97, 120], 1), ([98, 120], 1)] =
      .ok (ofEntries .closings [([97, 120], 1), ([98, 120], 1)]) := rfl
  have size : plain.units.size = 10 := by
    rw [same, Except.ok.injEq] at plain_built
    rw [← plain_built, size_ofEntries_closings (by decide) (List.pairwise_pair.2 (by decide)),
      plainSize_layout, shape]
    rfl
  exact ⟨plain, shared, plain_built, shared_built, size, smaller (by omega)⟩

end PackedTrie

end SentenceBreaks.Trie
