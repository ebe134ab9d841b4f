import SentenceBreaks.Proofs.Trie.BuiltTrie

/-! Where jumps lead while a trie is written. Between the end of a part and a jump to it some units
are always written: the last unit of a list comes before its jumps, and so does the upper half of a
split, which is another part than the lower one. So a jump leads over one unit at least to a place
that was recorded, and there is a copy of its target. -/

namespace SentenceBreaks.Trie

namespace Serial

open Layout

variable {book : List Signature} {ranks : Ranks} {reserved : Option (Nat × Nat)} {serial : Serial}
  {p : Part} {tag other stop : Nat} {block : List UInt16} {head : Tagged Nat}

/-- Every part ends behind some unit and not behind where the units end. -/
def Bounded (serial : Serial) : Prop :=
  ∀ tag stop : Nat, serial.ends[tag]? = some stop → 0 < stop ∧ stop ≤ serial.buffer.filled

/-- Some units were written since the last part ended. -/
structure Ahead (serial : Serial) : Prop where
  started : 0 < serial.buffer.filled
  ends : ∀ tag stop : Nat, serial.ends[tag]? = some stop → 0 < stop ∧ stop < serial.buffer.filled

theorem Bounded.write (bounded : Bounded serial) (some_unit : block ≠ []) :
    Ahead (serial.write block) := by
  have longer := List.length_pos_iff.2 some_unit
  have filled := filled_write block serial
  refine ⟨by omega, fun tag stop found => ?_⟩
  have bound := bounded tag stop found
  omega

theorem Ahead.bounded (ahead : Ahead serial) : Bounded serial := by
  intro tag stop found
  have bound := ahead.ends tag stop found
  exact ⟨bound.1, Nat.le_of_lt bound.2⟩

theorem Ahead.writeArms (ahead : Ahead serial) (arms : List (UInt16 × Layout.Target Nat)) :
    Ahead (writeArms arms serial) := by
  induction arms with
  | nil => exact ahead
  | cons arm others ih => exact ih.bounded.write (List.cons_ne_nil _ _)

theorem Ahead.finish (ahead : Ahead serial) (tag : Nat) : Bounded (serial.finish tag) := by
  intro other stop found
  unfold Serial.finish at found
  rw [Std.HashMap.getElem?_insert] at found
  split at found
  next =>
    obtain rfl := Option.some.inj found
    exact ⟨ahead.started, Nat.le_refl _⟩
  next => exact ahead.bounded other stop found

/-- Only the part that was just finished can end where the units end. -/
theorem Ahead.ends_finish (ahead : Ahead serial) (different : other ≠ tag)
    (found : (serial.finish tag).ends[other]? = some stop) :
    0 < stop ∧ stop < (serial.finish tag).buffer.filled := by
  unfold Serial.finish at found
  rw [Std.HashMap.getElem?_insert, if_neg (by simpa using different.symm)] at found
  exact ahead.ends other stop found

/-- What writing keeps, and how it ends with a part that is not reserved. -/
structure Capped (p : Part) (reserved : Option (Nat × Nat)) (heads : List (Tagged Nat))
    (serial : Serial) : Prop where
  bounded : Bounded serial
  top : p ≠ .edges → reserved = none →
    ∀ head ∈ heads, ∃ before, Ahead before ∧ serial = before.finish head.tag

theorem place_capped {body : Serial → Serial} (own : head.tag = tag) (bounded : Bounded serial)
    (ahead : Ahead (body serial)) :
    Capped p reserved [head] (place ranks reserved tag body serial) := by
  subst own
  unfold place
  split
  next =>
    refine ⟨ahead.finish _, fun _ _ => List.forall_mem_singleton.2 ⟨_, ahead, rfl⟩⟩
  next passed =>
    refine ⟨bounded, fun _ free => ?_⟩
    subst free
    simp at passed

theorem writePart_capped (ranks : Ranks) (part : Layout Nat p) (reserved : Option (Nat × Nat))
    (serial : Serial) (bounded : Bounded serial) :
    Capped p reserved part.heads (writePart ranks part reserved serial) := by
  induction part generalizing reserved serial with
  | closing tag value =>
      rw [writePart]
      exact place_capped rfl bounded (bounded.write (closingUnits_ne_nil value))
  | run tag value units next ih =>
      have below := (ih none serial bounded).bounded
      rw [writePart]
      exact place_capped rfl bounded (below.write (runUnits_ne_nil value units))
  | fork tag value next ih =>
      have below := (ih none serial bounded).bounded
      rw [writePart]
      exact place_capped rfl bounded (below.write (forkUnits_ne_nil value next.width))
  | split tag unit less rest less_ih rest_ih =>
      have lower := (less_ih (reservedFor ranks tag (some rest.branchTag) serial) serial
        bounded).bounded
      have upper := (rest_ih none _ lower).bounded
      rw [writePart]
      exact place_capped rfl bounded (upper.write (List.cons_ne_nil _ _))
  | list tag lower unit last lower_ih last_ih =>
      have edges := (lower_ih (reservedFor ranks tag (some last.nodeTag) serial) serial
        bounded).bounded
      have upper := (last_ih none _ edges).bounded
      rw [writePart]
      exact place_capped rfl bounded ((upper.write (List.cons_ne_nil _ _)).writeArms _)
  | listClosing tag lower unit value ih =>
      have edges := (ih (reservedFor ranks tag none serial) serial bounded).bounded
      rw [writePart]
      exact place_capped rfl bounded ((edges.write (List.cons_ne_nil _ _)).writeArms _)
  | done => exact ⟨bounded, fun tagged => absurd rfl tagged⟩
  | edge unit target rest target_ih rest_ih =>
      have others := (rest_ih reserved serial bounded).bounded
      exact ⟨(target_ih reserved _ others).bounded, fun tagged => absurd rfl tagged⟩
  | edgeClosing unit value rest ih =>
      exact ⟨(ih reserved serial bounded).bounded, fun tagged => absurd rfl tagged⟩

/-- Behind a part that is not reserved every other part ends earlier. -/
theorem ends_of_top (part : Layout Nat p) (tagged : p ≠ .edges) (bounded : Bounded serial)
    (member : head ∈ part.heads) (different : other ≠ head.tag)
    (found : (writePart ranks part none serial).ends[other]? = some stop) :
    0 < stop ∧ stop < (writePart ranks part none serial).buffer.filled := by
  obtain ⟨before, ahead, same⟩ :=
    (writePart_capped ranks part none serial bounded).top tagged rfl head member
  rw [same] at found ⊢
  exact ahead.ends_finish different found

/-- A recorded end of the target is behind some unit and before where the units end. -/
def Strict (leap : Tagged Nat × Serial) : Prop :=
  ∀ stop : Nat, leap.2.ends[leap.1.tag]? = some stop →
    0 < stop ∧ stop < leap.2.buffer.filled

theorem Ahead.armLeaps_strict (part : Layout Nat p) (ahead : Ahead serial) :
    ∀ leap ∈ armLeaps part serial, Strict leap := by
  induction part with
  | closing => exact List.forall_mem_nil _
  | run => exact List.forall_mem_nil _
  | fork => exact List.forall_mem_nil _
  | split => exact List.forall_mem_nil _
  | list => exact List.forall_mem_nil _
  | listClosing => exact List.forall_mem_nil _
  | done => exact List.forall_mem_nil _
  | edge unit target rest _ ih =>
      exact List.forall_mem_cons.2 ⟨(ahead.writeArms rest.arms).ends _, ih⟩
  | edgeClosing unit value rest ih => exact ih

/-- The halves of a split tell different units apart, so they are different parts. -/
theorem branchTag_ne {unit : UInt16} {less rest : Layout Nat .branch}
    (sound : (Layout.split tag unit less rest).Sound) (less_booked : Booked book (.branch less))
    (rest_booked : Booked book (.branch rest)) : less.branchTag ≠ rest.branchTag := by
  obtain ⟨wide, half, low, high, _, _⟩ := sound
  intro same
  have equal : less = rest := Tagged.branch.inj (less_booked.eq_of_tag rest_booked same)
  subst equal
  have some_start : less.starts ≠ [] := by
    rw [← List.length_pos_iff, length_starts]
    unfold listLimit at wide
    omega
  obtain ⟨first, member⟩ := List.exists_mem_of_ne_nil _ some_start
  exact high first member (low first member)

theorem forall_mem_of_waiting {waiting : Prop} [Decidable waiting]
    {made : List (Tagged Nat × Serial)} {P : Tagged Nat × Serial → Prop}
    (all : ∀ leap ∈ made, P leap) : ∀ leap ∈ if waiting then made else [], P leap := by
  split
  · exact all
  · exact List.forall_mem_nil _

theorem leaps_strict (ranks : Ranks) (part : Layout Nat p) (sound : part.Sound)
    (booked : ∀ inside ∈ part.within, Booked book inside) (reserved : Option (Nat × Nat))
    (serial : Serial) (bounded : Bounded serial) :
    ∀ leap ∈ leaps ranks part reserved serial, Strict leap := by
  induction part generalizing reserved serial with
  | closing => exact List.forall_mem_nil _
  | run tag value units next ih =>
      obtain ⟨_, booked⟩ := List.forall_mem_cons.1 booked
      obtain ⟨_, _, sound⟩ := sound
      rw [leaps]
      exact forall_mem_of_waiting (ih sound booked none serial bounded)
  | fork tag value next ih =>
      obtain ⟨_, booked⟩ := List.forall_mem_cons.1 booked
      obtain ⟨_, _, sound⟩ := sound
      rw [leaps]
      exact forall_mem_of_waiting (ih sound booked none serial bounded)
  | split tag unit less rest less_ih rest_ih =>
      obtain ⟨_, booked⟩ := List.forall_mem_cons.1 booked
      obtain ⟨rest_booked, less_booked⟩ := List.forall_mem_append.1 booked
      have different := branchTag_ne sound (less_booked _ (List.mem_cons_self ..))
        (rest_booked _ (List.mem_cons_self ..))
      obtain ⟨_, _, _, _, less_sound, rest_sound⟩ := sound
      have lower := (writePart_capped ranks less
        (reservedFor ranks tag (some rest.branchTag) serial) serial bounded).bounded
      rw [leaps]
      apply forall_mem_of_waiting
      refine List.forall_mem_cons.2 ⟨?_, List.forall_mem_append.2 ⟨?_, ?_⟩⟩
      · intro stop found
        have top : .branch rest ∈ rest.heads := List.mem_singleton_self _
        exact ends_of_top rest Part.branch_ne_edges lower top different found
      · exact rest_ih rest_sound rest_booked none _ lower
      · exact less_ih less_sound less_booked _ serial bounded
  | list tag lower unit last lower_ih last_ih =>
      obtain ⟨_, booked⟩ := List.forall_mem_cons.1 booked
      obtain ⟨last_booked, lower_booked⟩ := List.forall_mem_append.1 booked
      obtain ⟨_, _, lower_sound, last_sound⟩ := sound
      have edges := (writePart_capped ranks lower
        (reservedFor ranks tag (some last.nodeTag) serial) serial bounded).bounded
      have upper := (writePart_capped ranks last none _ edges).bounded
      rw [leaps]
      apply forall_mem_of_waiting
      refine List.forall_mem_append.2 ⟨?_, List.forall_mem_append.2 ⟨?_, ?_⟩⟩
      · exact (upper.write (List.cons_ne_nil _ _)).armLeaps_strict lower
      · exact last_ih last_sound last_booked none _ edges
      · exact lower_ih lower_sound lower_booked _ serial bounded
  | listClosing tag lower unit value ih =>
      obtain ⟨_, booked⟩ := List.forall_mem_cons.1 booked
      obtain ⟨_, _, sound⟩ := sound
      have edges := (writePart_capped ranks lower (reservedFor ranks tag none serial) serial
        bounded).bounded
      rw [leaps]
      apply forall_mem_of_waiting
      refine List.forall_mem_append.2 ⟨?_, ih sound booked _ serial bounded⟩
      exact (edges.write (List.cons_ne_nil _ _)).armLeaps_strict lower
  | done => exact List.forall_mem_nil _
  | edge unit target rest target_ih rest_ih =>
      obtain ⟨rest_booked, target_booked⟩ := List.forall_mem_append.1 booked
      obtain ⟨_, target_sound, rest_sound⟩ := sound
      have others := (writePart_capped ranks rest reserved serial bounded).bounded
      rw [leaps]
      exact List.forall_mem_append.2
        ⟨target_ih target_sound target_booked reserved _ others,
          rest_ih rest_sound rest_booked reserved serial bounded⟩
  | edgeClosing unit value rest ih => exact ih sound.2 booked reserved serial bounded

theorem bounded_empty (capacity : Nat) : Bounded ⟨.withCapacity capacity, ∅⟩ := by
  intro tag stop found
  rw [Std.HashMap.getElem?_empty] at found
  contradiction

theorem distance_of_recorded (found : serial.ends[tag]? = some stop) :
    serial.distance tag = serial.buffer.filled - stop := by
  rw [distance, Std.HashMap.getD_eq_getD_getElem?, found]
  rfl

/-- A jump that is strict goes over at least one unit. -/
theorem Strict.allows {leap : Tagged Nat × Serial} (strict : Strict leap) :
    Allows (0 < ·) leap := by
  rintro ⟨stop, found⟩
  have bound := strict stop found
  rw [distance_of_recorded found]
  omega

end Serial

namespace PackedTrie

variable {sharing : Sharing} {entries : List Entry}

/-- The jumps that are written for the trie of ascending entries, each with the part it is for and
the state of the writing. -/
def leaps (sharing : Sharing) (entries : List Entry) : List (Tagged Nat × Serial) :=
  Serial.leaps (.ofLayout (layout sharing entries)) (layout sharing entries) none
    ⟨.withCapacity (capacity entries), ∅⟩

/-- Whenever a jump is written, an end of its target is recorded. It lies behind some unit and
before where the units end, so the jump goes over one unit at least; and the units from there on,
which were all when the target ended, begin with a copy of the target in which jumps do the same.
So in the end the units are such a copy of the whole layout. -/
theorem leaps_land (sharing : Sharing) (entries : List Entry) (some_entry : entries ≠ [])
    (sorted : Ascending.Sorted Prod.fst entries) :
    (∀ target state, (target, state) ∈ leaps sharing entries →
      ∃ stop, state.ends[target.tag]? = some stop ∧ 0 < stop ∧ stop < state.buffer.filled ∧
        target.Copied (0 < ·) (state.tail stop) ∧
        state.distance target.tag = state.buffer.filled - stop ∧
        1 ≤ state.distance target.tag) ∧
      jumps sharing entries = (leaps sharing entries).map (fun (target, state) =>
        state.distance target.tag) ∧
      ∃ after, (layout sharing entries).Copied (0 < ·)
        (ofEntries sharing entries).units.toList after := by
  obtain ⟨_, sound⟩ := @layout_faithful sharing entries some_entry sorted
  obtain ⟨book, booked⟩ := layout_booked sharing entries
  obtain ⟨orderly, settled⟩ := Ranks.ofLayout_orderly (layout sharing entries) booked
  have strict : ∀ leap ∈ leaps sharing entries, Serial.Strict leap :=
    Serial.leaps_strict _ (layout sharing entries) sound booked none _
      (Serial.bounded_empty (capacity entries))
  have written := Serial.writePart_written (layout sharing entries) orderly booked settled none _
    (Serial.copies_empty (capacity entries)) fun leap member => (strict leap member).allows
  refine ⟨?_, Serial.jumps_eq _ _ _, ?_⟩
  · intro target state member
    obtain ⟨stop, found, copy⟩ := written.lands _ member
    obtain ⟨behind, before⟩ := strict _ member stop found
    have distance := Serial.distance_of_recorded found
    dsimp only at before distance
    exact ⟨stop, found, behind, before, copy.copied, distance, by omega⟩
  · obtain ⟨⟨after, copied⟩, _⟩ :=
      written.whole (layout sharing entries) Part.node_ne_edges booked
    refine ⟨after, ?_⟩
    unfold ofEntries
    rw [TailBuffer.toList_units]
    exact copied

/-- Two units lead to equal nodes, one of them by a jump. The node is written once, as the last
child, and the jump leads there. -/
theorem leaps_land_ending :
    ∃ target state stop, (target, state) ∈ leaps .everything [([97, 120], 1), ([98, 120], 1)] ∧
      state.ends[target.tag]? = some stop ∧ 0 < stop ∧ stop < state.buffer.filled := by
  have shape : Layout.ofEntries [([97, 120], 1), ([98, 120], 1)] =
      .fork () none (.list () (.edge 97 (.run () none [120] (.closing () 1)) .done) 98
        (.run () none [120] (.closing () 1))) := by
    simp [Layout.ofEntries, Layout.node, Layout.node.continuing, Layout.node.follow, Layout.common,
      Layout.groups, Layout.branch, Layout.listOf, Layout.edgesOf, Layout.runs, Layout.pieces,
      Layout.pieces.extend, Layout.listLimit]
  obtain ⟨target, state, member⟩ : ∃ target state, (target, state) ∈
      leaps .everything [([97, 120], 1), ([98, 120], 1)] := by
    simp only [leaps, layout, shape, Sharing.number, Serial.leaps, Serial.armLeaps, Option.all_none,
      if_true]
    exact ⟨_, _, List.mem_cons_self⟩
  obtain ⟨lands, _, _⟩ := leaps_land .everything [([97, 120], 1), ([98, 120], 1)] (by decide)
    (List.pairwise_pair.2 (by decide))
  obtain ⟨stop, found, behind, before, _⟩ := lands target state member
  exact ⟨target, state, stop, member, found, behind, before⟩

end PackedTrie

end SentenceBreaks.Trie
