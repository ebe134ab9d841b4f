import SentenceBreaks.Proofs.Trie.SerialForm

/-! Copies of parts among the units, and the jumps that lead to them. At all times each part that
counts as written has a copy which ends where the units once ended, and so has each part below it. A
part that is held back for the last child of a branch is within that child, and the child is always
written. So the target of a jump is there when the jump is written, whatever its distance. -/

namespace SentenceBreaks.Trie

namespace Layout

/-- The units from the first place to the second one are a copy of a part and of what follows it
without a jump. Its jumps have allowed distances, and each leads to a copy of what it is for. -/
inductive Copied {τ : Type} (allowed : Nat → Prop) :
    {p : Part} → Layout τ p → List UInt16 → List UInt16 → Prop
  | closing {tag : τ} {value : Int32} {after : List UInt16} :
      Copied allowed (.closing tag value) (Serial.closingUnits value ++ after) after
  | run {tag : τ} {value : Option Int32} {units middle after : List UInt16}
      {next : Layout τ .node} (onward : Copied allowed next middle after) :
      Copied allowed (.run tag value units next) (Serial.runUnits value units ++ middle) after
  | fork {tag : τ} {value : Option Int32} {middle after : List UInt16}
      {next : Layout τ .branch} (onward : Copied allowed next middle after) :
      Copied allowed (.fork tag value next) (Serial.forkUnits value next.width ++ middle) after
  | split {tag : τ} {unit : UInt16} {less rest : Layout τ .branch}
      {middle after beyond : List UInt16} {distance : Nat} (allows : allowed distance)
      (upper : Copied allowed rest middle after)
      (lower : Copied allowed less (middle.drop distance) beyond) :
      Copied allowed (.split tag unit less rest)
        (unit :: (Codec.encodeJump distance ++ middle)) after
  | list {tag : τ} {lower : Layout τ .edges} {unit : UInt16} {last : Layout τ .node}
      {tail middle after : List UInt16} (arms : Copied allowed lower tail (unit :: middle))
      (onward : Copied allowed last middle after) :
      Copied allowed (.list tag lower unit last) tail after
  | listClosing {tag : τ} {lower : Layout τ .edges} {unit : UInt16} {value : Int32}
      {tail after : List UInt16}
      (arms : Copied allowed lower tail (unit :: (Serial.closingUnits value ++ after))) :
      Copied allowed (.listClosing tag lower unit value) tail after
  | done {after : List UInt16} : Copied allowed .done after after
  | edge {unit : UInt16} {target : Layout τ .node} {rest : Layout τ .edges}
      {middle after beyond : List UInt16} {distance : Nat} (allows : allowed distance)
      (others : Copied allowed rest middle after)
      (onward : Copied allowed target (middle.drop distance) beyond) :
      Copied allowed (.edge unit target rest)
        (unit :: (Codec.encodeNumber distance false ++ middle)) after
  | edgeClosing {unit : UInt16} {value : Int32} {rest : Layout τ .edges}
      {middle after : List UInt16} (others : Copied allowed rest middle after) :
      Copied allowed (.edgeClosing unit value rest)
        (unit :: (Serial.closingUnits value ++ middle)) after

/-- To span units is to have a copy there whose jumps all fit into 32 bits. -/
theorem spans_iff_copied {τ : Type} {p : Part} {part : Layout τ p} {tail after : List UInt16} :
    part.Spans tail after ↔ part.Copied (· < 2 ^ 32) tail after := by
  constructor
  · intro spans
    induction spans with
    | closing => exact .closing
    | run _ onward => exact .run onward
    | fork _ onward => exact .fork onward
    | split fits _ _ upper lower => exact .split fits upper lower
    | list _ _ arms onward => exact .list arms onward
    | listClosing _ arms => exact .listClosing arms
    | done => exact .done
    | edge fits _ _ others onward => exact .edge fits others onward
    | edgeClosing _ others => exact .edgeClosing others
  · intro copied
    induction copied with
    | closing => exact .closing
    | run _ onward => exact .run onward
    | fork _ onward => exact .fork onward
    | split fits _ _ upper lower => exact .split fits upper lower
    | list _ _ arms onward => exact .list arms onward
    | listClosing _ arms => exact .listClosing arms
    | done => exact .done
    | edge fits _ _ others onward => exact .edge fits others onward
    | edgeClosing _ others => exact .edgeClosing others

end Layout

/-- A node or a branch has a copy from a place on. -/
def Tagged.Copied {τ : Type} (allowed : Nat → Prop) (part : Tagged τ) (tail : List UInt16) :
    Prop :=
  match part with
  | .node part => ∃ after, part.Copied allowed tail after
  | .branch part => ∃ after, part.Copied allowed tail after

theorem Tagged.spans_iff_copied {τ : Type} {part : Tagged τ} {tail : List UInt16} :
    part.Spans tail ↔ part.Copied (· < 2 ^ 32) tail := by
  cases part with
  | node part => exact exists_congr fun _ => Layout.spans_iff_copied
  | branch part => exact exists_congr fun _ => Layout.spans_iff_copied

namespace Serial

open Layout

/-- The jumps of edges, each with the node it is for and the state in which it is written. -/
def armLeaps : {p : Part} → Layout Nat p → Serial → List (Tagged Nat × Serial)
  | _, .closing _ _, _ => []
  | _, .run _ _ _ _, _ => []
  | _, .fork _ _ _, _ => []
  | _, .split _ _ _ _, _ => []
  | _, .list _ _ _ _, _ => []
  | _, .listClosing _ _ _ _, _ => []
  | _, .done, _ => []
  | _, .edge _ target rest, serial =>
      (.node target, writeArms rest.arms serial) :: armLeaps rest serial
  | _, .edgeClosing _ _ rest, serial => armLeaps rest serial

attribute [grind =] armLeaps

/-- All jumps of a part, each with the part it is for and the state in which it is written. -/
def leaps (ranks : Ranks) : {p : Part} → Layout Nat p → Option (Nat × Nat) → Serial →
    List (Tagged Nat × Serial)
  | _, .closing _ _, _, _ => []
  | _, .run tag _ _ next, reserved, serial =>
      if reserved.all (waits ranks · tag serial) then leaps ranks next none serial else []
  | _, .fork tag _ next, reserved, serial =>
      if reserved.all (waits ranks · tag serial) then leaps ranks next none serial else []
  | _, .split tag _ less rest, reserved, serial =>
      if reserved.all (waits ranks · tag serial) then
        let later := reservedFor ranks tag (some rest.branchTag) serial
        let beneath := writePart ranks less later serial
        (.branch less, writePart ranks rest none beneath) ::
          (leaps ranks rest none beneath ++ leaps ranks less later serial)
      else []
  | _, .list tag lower unit last, reserved, serial =>
      if reserved.all (waits ranks · tag serial) then
        let later := reservedFor ranks tag (some last.nodeTag) serial
        let beneath := writePart ranks lower later serial
        armLeaps lower ((writePart ranks last none beneath).write [unit]) ++
          (leaps ranks last none beneath ++ leaps ranks lower later serial)
      else []
  | _, .listClosing tag lower unit value, reserved, serial =>
      if reserved.all (waits ranks · tag serial) then
        let later := reservedFor ranks tag none serial
        let beneath := writePart ranks lower later serial
        armLeaps lower (beneath.write (unit :: closingUnits value)) ++
          leaps ranks lower later serial
      else []
  | _, .done, _, _ => []
  | _, .edge _ target rest, reserved, serial =>
      leaps ranks target reserved (writePart ranks rest reserved serial) ++
        leaps ranks rest reserved serial
  | _, .edgeClosing _ _ rest, reserved, serial => leaps ranks rest reserved serial

attribute [grind =] leaps

variable {allowed : Nat → Prop} {book : List Signature} {ranks : Ranks}
  {reserved : Option (Nat × Nat)} {before after serial : Serial} {part : Tagged Nat} {p : Part}
  {tag stop : Nat} {made : List (Tagged Nat × Serial)}

/-- A copy of a part that ends so far from the end, with all below the part somewhere behind. -/
structure Copy (allowed : Nat → Prop) (part : Tagged Nat) (stop : Nat) (serial : Serial) :
    Prop where
  inside : stop ≤ serial.buffer.filled
  copied : part.Copied allowed (serial.tail stop)
  below : ∀ deep ∈ part.inner, Present deep.tag serial

/-- Every part that counts as written has a copy where it is said to end. -/
def Copies (allowed : Nat → Prop) (book : List Signature) (serial : Serial) : Prop :=
  ∀ (part : Tagged Nat) (stop : Nat), Booked book part → serial.ends[part.tag]? = some stop →
    Copy allowed part stop serial

/-- A jump whose target is there leads over an allowed distance. -/
def Allows (allowed : Nat → Prop) (leap : Tagged Nat × Serial) : Prop :=
  Present leap.1.tag leap.2 → allowed (leap.2.distance leap.1.tag)

/-- A jump leads to a copy of the part it is for. -/
def Lands (allowed : Nat → Prop) (leap : Tagged Nat × Serial) : Prop :=
  ∃ stop, leap.2.ends[leap.1.tag]? = some stop ∧ Copy allowed leap.1 stop leap.2

/-- A part that has a reserved rank. -/
def HeldBack (ranks : Ranks) (reserved : Option (Nat × Nat)) (tag : Nat) : Prop :=
  ∃ range rank, reserved = some range ∧ ranks.settled[tag]? = some rank ∧ range.1 ≤ rank ∧
    rank ≤ range.2

/-- What writing a part gives: its heads are there, but for those that are held back, and the jumps
that were made lead to copies. -/
structure Written (allowed : Nat → Prop) (book : List Signature) (ranks : Ranks)
    (reserved : Option (Nat × Nat)) (heads : List (Tagged Nat)) (before after : Serial)
    (made : List (Tagged Nat × Serial)) : Prop where
  copies : Copies allowed book after
  onward : Onward before after
  there : ∀ head ∈ heads, Present head.tag after ∨ HeldBack ranks reserved head.tag
  lands : ∀ leap ∈ made, Lands allowed leap

theorem Copy.onward (copy : Copy allowed part stop before) (onward : Onward before after) :
    Copy allowed part stop after where
  inside := Nat.le_trans copy.inside onward.filled_le
  copied := by
    rw [onward.tail_eq copy.inside]
    exact copy.copied
  below deep member := onward.kept _ (copy.below deep member)

theorem Copies.write (copies : Copies allowed book serial) (block : List UInt16) :
    Copies allowed book (serial.write block) := by
  intro part stop booked found
  exact (copies part stop booked found).onward (onward_write block)

theorem Copies.lands (copies : Copies allowed book serial) (booked : Booked book part)
    (present : Present part.tag serial) : Lands allowed (part, serial) := by
  obtain ⟨stop, found⟩ := present
  exact ⟨stop, found, copies part stop booked found⟩

/-- All below a written part is written. -/
theorem Copies.present (copies : Copies allowed book serial) (booked : Booked book part)
    (present : Present part.tag serial) {deep : Tagged Nat} (member : deep ∈ part.inner) :
    Present deep.tag serial := by
  obtain ⟨stop, found⟩ := present
  exact (copies part stop booked found).below deep member

/-- The distance of a jump is that to the copy it leads to. -/
theorem Lands.copied_distance (lands : Lands allowed (part, serial)) :
    part.Copied allowed (serial.buffer.contents.drop (serial.distance part.tag)) := by
  obtain ⟨stop, found, copy⟩ := lands
  rw [distance, Std.HashMap.getD_eq_getD_getElem?, found]
  exact copy.copied

/-- A part may be finished when all units are a copy of it and those below it are written. -/
theorem Copies.finish (copies : Copies allowed book serial) (booked : Booked book part)
    (copied : part.Copied allowed serial.buffer.contents)
    (below : ∀ deep ∈ part.inner, Present deep.tag serial) :
    Copies allowed book (serial.finish part.tag) := by
  intro other stop other_booked found
  unfold Serial.finish at found
  dsimp only at found
  rw [Std.HashMap.getElem?_insert] at found
  split at found
  next same =>
    obtain rfl := booked.eq_of_tag other_booked (eq_of_beq same)
    obtain rfl := Option.some.inj found
    refine ⟨Nat.le_refl _, ?_, fun deep member => (onward_finish _).kept _ (below deep member)⟩
    simp only [tail, Serial.finish, Nat.sub_self, List.drop_zero]
    exact copied
  next => exact (copies other stop other_booked found).onward (onward_finish _)

/-- What a body has to give, so that its part is written in its place. -/
structure Composed (allowed : Nat → Prop) (book : List Signature) (part : Tagged Nat)
    (before after : Serial) (made : List (Tagged Nat × Serial)) : Prop where
  copies : Copies allowed book after
  onward : Onward before after
  copied : part.Copied allowed after.buffer.contents
  below : ∀ deep ∈ part.inner, Present deep.tag after
  lands : ∀ leap ∈ made, Lands allowed leap

theorem place_written {body : Serial → Serial} (own : part.tag = tag) (booked : Booked book part)
    (settled : ∃ rank, ranks.settled[part.tag]? = some rank) (copies : Copies allowed book serial)
    (composed : reserved.all (waits ranks · tag serial) →
      Composed allowed book part serial (body serial) made) :
    Written allowed book ranks reserved [part] serial (place ranks reserved tag body serial)
      (if reserved.all (waits ranks · tag serial) then made else []) := by
  subst own
  unfold place
  split
  next waiting =>
    have composed := composed waiting
    refine ⟨composed.copies.finish booked composed.copied composed.below,
      composed.onward.trans (onward_finish _), List.forall_mem_singleton.2 (Or.inl ?_),
      composed.lands⟩
    exact ⟨_, Std.HashMap.getElem?_insert_self⟩
  next passed =>
    refine ⟨copies, Onward.refl, List.forall_mem_singleton.2 ?_, List.forall_mem_nil _⟩
    obtain ⟨rank, found⟩ := settled
    cases reserved with
    | none => simp at passed
    | some range =>
        cases place : serial.ends[part.tag]? with
        | some stop => exact Or.inl ⟨stop, place⟩
        | none =>
            refine Or.inr ⟨range, rank, rfl, found, ?_⟩
            simp only [Option.all_some, waits, place, found, Bool.or_eq_true, decide_eq_true_eq,
              not_or, Nat.not_lt] at passed
            exact passed

/-- What edges in front of some units give. -/
structure Listed (allowed : Nat → Prop) (book : List Signature) (part : Layout Nat p)
    (before after : Serial) : Prop where
  copies : Copies allowed book after
  onward : Onward before after
  copied : part.Copied allowed after.buffer.contents before.buffer.contents
  lands : ∀ leap ∈ armLeaps part before, Lands allowed leap

theorem writeArms_cons (unit : UInt16) (target : Layout.Target Nat)
    (others : List (UInt16 × Layout.Target Nat)) (serial : Serial) :
    writeArms ((unit, target) :: others) serial =
      (writeArms others serial).write (unit :: (writeArms others serial).armUnits target) := rfl

theorem ends_writeArms (arms : List (UInt16 × Layout.Target Nat)) (serial : Serial) :
    (writeArms arms serial).ends = serial.ends := by
  induction arms with
  | nil => rfl
  | cons arm others ih => exact ih

theorem writeArms_listed (part : Layout Nat p) (edges : p = .edges)
    (booked : ∀ head ∈ part.targets, Booked book head) (copies : Copies allowed book serial)
    (there : ∀ head ∈ part.targets, Present head.tag serial)
    (allows : ∀ leap ∈ armLeaps part serial, Allows allowed leap) :
    Listed allowed book part serial (writeArms part.arms serial) := by
  induction part with
  | closing => contradiction
  | run => contradiction
  | fork => contradiction
  | split => contradiction
  | list => contradiction
  | listClosing => contradiction
  | done => exact ⟨copies, Onward.refl, .done, List.forall_mem_nil _⟩
  | edge unit target rest _ ih =>
      simp only [targets, List.forall_mem_cons] at booked there
      obtain ⟨allow, allows⟩ := List.forall_mem_cons.1 allows
      have others := ih rfl booked.2 there.2 allows
      have present := others.onward.kept _ there.1
      have lands := others.copies.lands booked.1 present
      refine ⟨others.copies.write _, others.onward.trans (onward_write _), ?_,
        List.forall_mem_cons.2 ⟨lands, others.lands⟩⟩
      obtain ⟨beyond, onward⟩ := lands.copied_distance
      rw [arms, writeArms_cons, contents_write]
      exact .edge (allow present) others.copied onward
  | edgeClosing unit value rest ih =>
      have others := ih rfl booked there allows
      refine ⟨others.copies.write _, others.onward.trans (onward_write _), ?_, others.lands⟩
      rw [arms, writeArms_cons, contents_write]
      exact .edgeClosing others.copied

/-- A node or a branch that is not reserved ends where the units end. -/
theorem ends_writePart (ranks : Ranks) (part : Layout Nat p) (tagged : p ≠ .edges)
    (serial : Serial) :
    ∀ head ∈ part.heads, (writePart ranks part none serial).ends[head.tag]? =
      some (writePart ranks part none serial).buffer.filled := by
  have finished : ∀ (tag : Nat) (serial : Serial),
      (serial.finish tag).ends[tag]? = some (serial.finish tag).buffer.filled :=
    fun _ _ => Std.HashMap.getElem?_insert_self
  cases part with
  | closing => exact List.forall_mem_singleton.2 (finished _ _)
  | run => exact List.forall_mem_singleton.2 (finished _ _)
  | fork => exact List.forall_mem_singleton.2 (finished _ _)
  | split => exact List.forall_mem_singleton.2 (finished _ _)
  | list => exact List.forall_mem_singleton.2 (finished _ _)
  | listClosing => exact List.forall_mem_singleton.2 (finished _ _)
  | done => contradiction
  | edge => contradiction
  | edgeClosing => contradiction

theorem mem_within_iff {part : Layout Nat p} {deep : Tagged Nat} (member : deep ∈ part.within) :
    ∃ head ∈ part.heads, deep = head ∨ deep ∈ head.inner := by
  cases p with
  | node => exact ⟨_, List.mem_singleton.2 rfl, List.mem_cons.1 member⟩
  | branch => exact ⟨_, List.mem_singleton.2 rfl, List.mem_cons.1 member⟩
  | edges => exact mem_targets_of_mem_inner rfl member

/-- Where the heads of a part are written, all of it is. -/
theorem Copies.within_present (copies : Copies allowed book serial) (part : Layout Nat p)
    (booked : ∀ inside ∈ part.within, Booked book inside)
    (there : ∀ head ∈ part.heads, Present head.tag serial) :
    ∀ inside ∈ part.within, Present inside.tag serial := by
  intro inside member
  obtain ⟨head, head_member, rfl | deeper⟩ := mem_within_iff member
  · exact there inside head_member
  · exact copies.present (booked head (mem_within_of_mem_heads head_member))
      (there head head_member) deeper

/-- What is held back for the last child of a branch is within the child. -/
theorem mem_of_heldBack {branch child : Nat} {heads inside : List (Tagged Nat)} {head : Tagged Nat}
    (shut : Ranks.Reserves.Shut ranks branch child heads inside) (member : head ∈ heads)
    (held : HeldBack ranks (reservedFor ranks branch (some child) serial) head.tag) :
    head ∈ inside := by
  obtain ⟨range, rank, reserved, found, low, high⟩ := held
  unfold reservedFor at reserved
  dsimp only at reserved
  split at reserved
  · obtain rfl := Option.some.inj reserved
    exact absurd (Nat.le_trans low high) (by decide)
  · obtain rfl := Option.some.inj reserved
    exact shut head member rank found low high

/-- Without a last child nothing is held back. -/
theorem not_heldBack_of_free {branch tag : Nat}
    (free : ranks.settled[tag]? ≠ some (ranks.entered.getD branch 0)) :
    ¬ HeldBack ranks (reservedFor ranks branch none serial) tag := by
  rintro ⟨range, rank, reserved, found, low, high⟩
  obtain rfl := Option.some.inj reserved
  rw [Nat.le_antisymm high low] at found
  exact free found

/-- What was held back for the last child of a branch is there when all within the child is. -/
theorem Written.there_of_shut {branch child : Nat} {heads inside : List (Tagged Nat)}
    (written : Written allowed book ranks (reservedFor ranks branch (some child) before) heads
      before serial made)
    (shut : Ranks.Reserves.Shut ranks branch child heads inside) (onward : Onward serial after)
    (upper : ∀ part ∈ inside, Present part.tag after) : ∀ head ∈ heads, Present head.tag after := by
  intro head member
  rcases written.there head member with present | held
  · exact onward.kept _ present
  · exact upper head (mem_of_heldBack shut member held)

theorem Written.there_of_listClosing {branch : Nat} {heads : List (Tagged Nat)}
    (written : Written allowed book ranks (reservedFor ranks branch none before) heads before
      serial made)
    (free : ∀ head ∈ heads, ranks.settled[head.tag]? ≠ some (ranks.entered.getD branch 0)) :
    ∀ head ∈ heads, Present head.tag serial := by
  intro head member
  exact (written.there head member).resolve_right (not_heldBack_of_free (free head member))

/-- A node or a branch that was not to be reserved begins the units. -/
theorem Written.top (part : Layout Nat p) (tagged : p ≠ .edges)
    (booked : ∀ inside ∈ part.within, Booked book inside)
    (written : Written allowed book ranks none part.heads serial (writePart ranks part none serial)
      made) :
    ∀ head ∈ part.heads,
      head.Copied allowed (writePart ranks part none serial).buffer.contents ∧
        Present head.tag (writePart ranks part none serial) := by
  intro head member
  have found := ends_writePart ranks part tagged serial head member
  have copy := written.copies head _ (booked head (mem_within_of_mem_heads member)) found
  have copied := copy.copied
  rw [tail, Nat.sub_self, List.drop_zero] at copied
  exact ⟨copied, _, found⟩

/-- What follows without a jump is all there, in front of the units so far. -/
theorem Written.whole (part : Layout Nat p) (tagged : p ≠ .edges)
    (booked : ∀ inside ∈ part.within, Booked book inside)
    (written : Written allowed book ranks none part.heads serial (writePart ranks part none serial)
      made) :
    (∃ after, part.Copied allowed (writePart ranks part none serial).buffer.contents after) ∧
      ∀ inside ∈ part.within, Present inside.tag (writePart ranks part none serial) := by
  have top := written.top part tagged booked
  refine ⟨?_, written.copies.within_present part booked fun head member => (top head member).2⟩
  cases p with
  | node => exact (top _ (List.mem_singleton.2 rfl)).1
  | branch => exact (top _ (List.mem_singleton.2 rfl)).1
  | edges => contradiction

/-- Behind the last child of a branch all below the branch is there. -/
theorem Written.last_child {child : Nat} {q : Part} {more : List (Tagged Nat × Serial)}
    (lower : Layout Nat q) (last : Layout Nat p) (tagged : p ≠ .edges)
    (lower_booked : ∀ inside ∈ lower.within, Booked book inside)
    (last_booked : ∀ inside ∈ last.within, Booked book inside)
    (shut : Ranks.Reserves.Shut ranks tag child lower.heads last.within)
    (first : Written allowed book ranks (reservedFor ranks tag (some child) before) lower.heads
      before serial made)
    (second : Written allowed book ranks none last.heads serial (writePart ranks last none serial)
      more) :
    (∃ after, last.Copied allowed (writePart ranks last none serial).buffer.contents after) ∧
      (∀ head ∈ lower.heads, Present head.tag (writePart ranks last none serial)) ∧
      ∀ inside ∈ last.within ++ lower.within,
        Present inside.tag (writePart ranks last none serial) := by
  obtain ⟨copied, there⟩ := second.whole last tagged last_booked
  have heads_there := first.there_of_shut shut second.onward there
  exact ⟨copied, heads_there, List.forall_mem_append.2
    ⟨there, second.copies.within_present lower lower_booked heads_there⟩⟩

/-- The induction follows the writing. A branch uses what the ranks say: its lower part is written
before its last child or within it. -/
theorem writePart_written (part : Layout Nat p) (orderly : ranks.Orderly book)
    (booked : ∀ inside ∈ part.within, Booked book inside)
    (settled : ∀ inside ∈ part.within, ∃ rank, ranks.settled[inside.tag]? = some rank)
    (reserved : Option (Nat × Nat)) (serial : Serial) (copies : Copies allowed book serial)
    (allows : ∀ leap ∈ leaps ranks part reserved serial, Allows allowed leap) :
    Written allowed book ranks reserved part.heads serial (writePart ranks part reserved serial)
      (leaps ranks part reserved serial) := by
  induction part generalizing reserved serial with
  | closing tag value =>
      obtain ⟨own, _⟩ := List.forall_mem_cons.1 booked
      obtain ⟨ranked, _⟩ := List.forall_mem_cons.1 settled
      have written : Written allowed book ranks reserved [.node (.closing tag value)] serial
          (place ranks reserved tag (write (closingUnits value)) serial)
          (if reserved.all (waits ranks · tag serial) then [] else []) := by
        refine place_written rfl own ranked copies fun _ => ⟨copies.write _, onward_write _,
          ⟨serial.buffer.contents, ?_⟩, List.forall_mem_nil _, List.forall_mem_nil _⟩
        rw [contents_write]
        exact .closing
      rwa [ite_self] at written
  | run tag value units next ih =>
      obtain ⟨own, booked⟩ := List.forall_mem_cons.1 booked
      obtain ⟨ranked, settled⟩ := List.forall_mem_cons.1 settled
      rw [leaps] at allows ⊢
      refine place_written rfl own ranked copies fun waiting => ?_
      rw [if_pos waiting] at allows
      have below := ih booked settled none serial copies allows
      obtain ⟨⟨after, copied⟩, there⟩ := below.whole next nofun booked
      refine ⟨below.copies.write _, below.onward.trans (onward_write _), ⟨after, ?_⟩, there,
        below.lands⟩
      rw [contents_write]
      exact .run copied
  | fork tag value next ih =>
      obtain ⟨own, booked⟩ := List.forall_mem_cons.1 booked
      obtain ⟨ranked, settled⟩ := List.forall_mem_cons.1 settled
      rw [leaps] at allows ⊢
      refine place_written rfl own ranked copies fun waiting => ?_
      rw [if_pos waiting] at allows
      have below := ih booked settled none serial copies allows
      obtain ⟨⟨after, copied⟩, there⟩ := below.whole next nofun booked
      refine ⟨below.copies.write _, below.onward.trans (onward_write _), ⟨after, ?_⟩, there,
        below.lands⟩
      rw [contents_write]
      exact .fork copied
  | split tag unit less rest less_ih rest_ih =>
      obtain ⟨own, booked⟩ := List.forall_mem_cons.1 booked
      obtain ⟨⟨rank, ranked⟩, settled⟩ := List.forall_mem_cons.1 settled
      obtain ⟨rest_booked, less_booked⟩ := List.forall_mem_append.1 booked
      obtain ⟨rest_settled, less_settled⟩ := List.forall_mem_append.1 settled
      have shut := (orderly _ rank own ranked).2
      rw [leaps] at allows ⊢
      refine place_written rfl own ⟨rank, ranked⟩ copies fun waiting => ?_
      rw [if_pos waiting] at allows
      simp only [List.forall_mem_cons, List.forall_mem_append] at allows
      obtain ⟨jump, rest_allows, less_allows⟩ := allows
      have lower := less_ih less_booked less_settled _ serial copies less_allows
      have upper := rest_ih rest_booked rest_settled none _ lower.copies rest_allows
      obtain ⟨⟨after, copied⟩, heads_there, there⟩ :=
        lower.last_child less rest nofun less_booked rest_booked shut upper
      have present := heads_there _ (List.mem_singleton.2 rfl)
      have lands := upper.copies.lands (less_booked _ (List.mem_cons_self ..)) present
      obtain ⟨beyond, jumped⟩ := lands.copied_distance
      refine ⟨upper.copies.write _, (lower.onward.trans upper.onward).trans (onward_write _),
        ⟨after, ?_⟩, there, ?_⟩
      · rw [contents_write]
        exact .split (jump present) copied jumped
      · exact List.forall_mem_cons.2 ⟨lands, List.forall_mem_append.2 ⟨upper.lands, lower.lands⟩⟩
  | list tag lower unit last lower_ih last_ih =>
      obtain ⟨own, booked⟩ := List.forall_mem_cons.1 booked
      obtain ⟨⟨rank, ranked⟩, settled⟩ := List.forall_mem_cons.1 settled
      obtain ⟨last_booked, lower_booked⟩ := List.forall_mem_append.1 booked
      obtain ⟨last_settled, lower_settled⟩ := List.forall_mem_append.1 settled
      have shut := (orderly _ rank own ranked).2
      rw [leaps] at allows ⊢
      refine place_written rfl own ⟨rank, ranked⟩ copies fun waiting => ?_
      rw [if_pos waiting] at allows
      simp only [List.forall_mem_append] at allows
      obtain ⟨arms_allow, last_allows, lower_allows⟩ := allows
      have edges := lower_ih lower_booked lower_settled _ serial copies lower_allows
      have upper := last_ih last_booked last_settled none _ edges.copies last_allows
      obtain ⟨⟨after, copied⟩, heads_there, there⟩ :=
        edges.last_child lower last nofun lower_booked last_booked shut upper
      have listed := writeArms_listed lower rfl
        (fun head member => lower_booked head (mem_inner_of_mem_targets member))
        (upper.copies.write [unit]) heads_there arms_allow
      have onward := (edges.onward.trans upper.onward).trans (onward_write [unit])
      have arms := listed.copied
      rw [contents_write] at arms
      refine ⟨listed.copies, onward.trans listed.onward, ⟨after, .list arms copied⟩, ?_, ?_⟩
      · exact fun deep member => listed.onward.kept _ (there deep member)
      · exact List.forall_mem_append.2
          ⟨listed.lands, List.forall_mem_append.2 ⟨upper.lands, edges.lands⟩⟩
  | listClosing tag lower unit value ih =>
      obtain ⟨own, booked⟩ := List.forall_mem_cons.1 booked
      obtain ⟨⟨rank, ranked⟩, settled⟩ := List.forall_mem_cons.1 settled
      have free := (orderly _ rank own ranked).2
      rw [leaps] at allows ⊢
      refine place_written rfl own ⟨rank, ranked⟩ copies fun waiting => ?_
      rw [if_pos waiting] at allows
      simp only [List.forall_mem_append] at allows
      obtain ⟨arms_allow, lower_allows⟩ := allows
      have edges := ih booked settled _ serial copies lower_allows
      have heads_there := edges.there_of_listClosing free
      have there := edges.copies.within_present lower booked heads_there
      have listed := writeArms_listed lower rfl
        (fun head member => booked head (@mem_inner_of_mem_targets _ _ lower _ member))
        (edges.copies.write (unit :: closingUnits value)) heads_there arms_allow
      have arms := listed.copied
      rw [contents_write] at arms
      refine ⟨listed.copies, (edges.onward.trans (onward_write _)).trans listed.onward,
        ⟨_, .listClosing arms⟩, ?_, ?_⟩
      · exact fun deep member => listed.onward.kept _ (there deep member)
      · exact List.forall_mem_append.2 ⟨listed.lands, edges.lands⟩
  | done => exact ⟨copies, Onward.refl, List.forall_mem_nil _, List.forall_mem_nil _⟩
  | edge unit target rest target_ih rest_ih =>
      obtain ⟨rest_booked, target_booked⟩ := List.forall_mem_append.1 booked
      obtain ⟨rest_settled, target_settled⟩ := List.forall_mem_append.1 settled
      simp only [leaps, List.forall_mem_append] at allows
      have others := rest_ih rest_booked rest_settled reserved serial copies allows.2
      have own := target_ih target_booked target_settled reserved _ others.copies allows.1
      refine ⟨own.copies, others.onward.trans own.onward, List.forall_mem_cons.2
        ⟨own.there _ (List.mem_singleton.2 rfl), fun head member => ?_⟩,
        List.forall_mem_append.2 ⟨own.lands, others.lands⟩⟩
      rcases others.there head member with present | held
      · exact Or.inl (own.onward.kept _ present)
      · exact Or.inr held
  | edgeClosing unit value rest ih => exact ih booked settled reserved serial copies allows

theorem copies_empty (capacity : Nat) : Copies allowed book ⟨.withCapacity capacity, ∅⟩ := by
  intro part stop _ found
  rw [Std.HashMap.getElem?_empty] at found
  contradiction

end Serial

end SentenceBreaks.Trie
