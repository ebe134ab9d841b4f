import SentenceBreaks.Trie.Packed
import SentenceBreaks.Proofs.Trie.SerialCopies

/-! Writing gives the serial form of a layout, as long as the units can say its jumps. At all times
each part that is among the units spans those from its place on, and so do all parts below it. -/

namespace SentenceBreaks.Trie

namespace Serial

open Layout

/-- The distances of the jumps of edges as they are written. -/
def armJumps : List (UInt16 × Layout.Target Nat) → Serial → List Nat
  | [], _ => []
  | (_, .closing _) :: others, serial => armJumps others serial
  | (_, .tagged tag) :: others, serial =>
      (writeArms others serial).distance tag :: armJumps others serial

/-- The distances of all jumps of a part as they are written. -/
def jumps (ranks : Ranks) : {p : Part} → Layout Nat p → Option (Nat × Nat) → Serial → List Nat
  | _, .closing _ _, _, _ => []
  | _, .run tag _ _ next, reserved, serial =>
      if reserved.all (waits ranks · tag serial) then jumps ranks next none serial else []
  | _, .fork tag _ next, reserved, serial =>
      if reserved.all (waits ranks · tag serial) then jumps ranks next none serial else []
  | _, .split tag _ less rest, reserved, serial =>
      if reserved.all (waits ranks · tag serial) then
        let later := reservedFor ranks tag (some rest.branchTag) serial
        let beneath := writePart ranks less later serial
        let above := writePart ranks rest none beneath
        above.distance less.branchTag ::
          (jumps ranks rest none beneath ++ jumps ranks less later serial)
      else []
  | _, .list tag lower unit last, reserved, serial =>
      if reserved.all (waits ranks · tag serial) then
        let later := reservedFor ranks tag (some last.nodeTag) serial
        let beneath := writePart ranks lower later serial
        let above := writePart ranks last none beneath
        armJumps lower.arms (above.write [unit]) ++
          (jumps ranks last none beneath ++ jumps ranks lower later serial)
      else []
  | _, .listClosing tag lower unit value, reserved, serial =>
      if reserved.all (waits ranks · tag serial) then
        let later := reservedFor ranks tag none serial
        let beneath := writePart ranks lower later serial
        armJumps lower.arms (beneath.write (unit :: closingUnits value)) ++
          jumps ranks lower later serial
      else []
  | _, .done, _, _ => []
  | _, .edge _ target rest, reserved, serial =>
      jumps ranks target reserved (writePart ranks rest reserved serial) ++
        jumps ranks rest reserved serial
  | _, .edgeClosing _ _ rest, reserved, serial => jumps ranks rest reserved serial

attribute [grind =] jumps

variable {book : List Signature} {ranks : Ranks} {reserved : Option (Nat × Nat)}
  {before after serial : Serial} {part : Tagged Nat} {p : Part} {tag stop : Nat}

theorem armJumps_eq (part : Layout Nat p) (edges : p = .edges) (serial : Serial) :
    armJumps part.arms serial =
      (armLeaps part serial).map fun leap => leap.2.distance leap.1.tag := by
  induction part with
  | closing => contradiction
  | run => contradiction
  | fork => contradiction
  | split => contradiction
  | list => contradiction
  | listClosing => contradiction
  | done => rfl
  | edge unit target rest _ ih => exact congrArg (_ :: ·) (ih rfl)
  | edgeClosing unit value rest ih => exact ih rfl

theorem jumps_eq (part : Layout Nat p) (reserved : Option (Nat × Nat)) (serial : Serial) :
    jumps ranks part reserved serial =
      (leaps ranks part reserved serial).map fun leap => leap.2.distance leap.1.tag := by
  induction part generalizing reserved serial with
  | closing => rfl
  | run tag value units next ih => rw [jumps, leaps, apply_ite (List.map _), ih, List.map_nil]
  | fork tag value next ih => rw [jumps, leaps, apply_ite (List.map _), ih, List.map_nil]
  | split tag unit less rest less_ih rest_ih =>
      rw [jumps, leaps, apply_ite (List.map _)]
      dsimp only
      rw [less_ih, rest_ih, List.map_cons, List.map_append, List.map_nil]
      rfl
  | list tag lower unit last lower_ih last_ih =>
      rw [jumps, leaps, apply_ite (List.map _)]
      dsimp only
      rw [lower_ih, last_ih, armJumps_eq lower rfl, List.map_append, List.map_append, List.map_nil]
  | listClosing tag lower unit value ih =>
      rw [jumps, leaps, apply_ite (List.map _)]
      dsimp only
      rw [ih, armJumps_eq lower rfl, List.map_append, List.map_nil]
  | done => rfl
  | edge unit target rest target_ih rest_ih =>
      rw [jumps, leaps, target_ih, rest_ih, List.map_append]
  | edgeClosing unit value rest ih => exact ih reserved serial

/-- A part that stands so far from the end, with all below it somewhere behind. -/
structure Stands (part : Tagged Nat) (stop : Nat) (serial : Serial) : Prop where
  inside : stop ≤ serial.buffer.filled
  spans : part.Spans (serial.tail stop)
  below : ∀ deep ∈ part.inner, Present deep.tag serial

/-- Every part that counts as written stands where it is said to. -/
def Holds (book : List Signature) (serial : Serial) : Prop :=
  ∀ (part : Tagged Nat) (stop : Nat), Booked book part → serial.ends[part.tag]? = some stop →
    Stands part stop serial

/-- What writing a part gives: its heads are there, but for those that are held back. -/
structure Laid (book : List Signature) (ranks : Ranks) (reserved : Option (Nat × Nat))
    (heads : List (Tagged Nat)) (before after : Serial) : Prop where
  holds : Holds book after
  onward : Onward before after
  there : ∀ head ∈ heads, Present head.tag after ∨ HeldBack ranks reserved head.tag

theorem stands_iff_copy : Stands part stop serial ↔ Copy (· < 2 ^ 32) part stop serial := by
  constructor
  · rintro ⟨inside, spans, below⟩
    exact ⟨inside, Tagged.spans_iff_copied.1 spans, below⟩
  · rintro ⟨inside, copied, below⟩
    exact ⟨inside, Tagged.spans_iff_copied.2 copied, below⟩

theorem holds_iff_copies : Holds book serial ↔ Copies (· < 2 ^ 32) book serial := by
  unfold Holds Copies
  simp only [stands_iff_copy]

/-- Where the heads of a part are written, all of it is. -/
theorem Holds.within_present (holds : Holds book serial) (part : Layout Nat p)
    (booked : ∀ inside ∈ part.within, Booked book inside)
    (there : ∀ head ∈ part.heads, Present head.tag serial) :
    ∀ inside ∈ part.within, Present inside.tag serial :=
  (holds_iff_copies.1 holds).within_present part booked there

/-- Every jump is allowed whose distance fits into 32 bits. -/
theorem allows_of_fits {part : Layout Nat p}
    (fits : ∀ jump ∈ jumps ranks part reserved serial, jump < 2 ^ 32) :
    ∀ leap ∈ leaps ranks part reserved serial, Allows (· < 2 ^ 32) leap := by
  intro leap member _
  apply fits
  rw [jumps_eq]
  exact List.mem_map.2 ⟨leap, member, rfl⟩

theorem writePart_laid (part : Layout Nat p) (orderly : ranks.Orderly book)
    (booked : ∀ inside ∈ part.within, Booked book inside)
    (settled : ∀ inside ∈ part.within, ∃ rank, ranks.settled[inside.tag]? = some rank)
    (reserved : Option (Nat × Nat)) (serial : Serial) (holds : Holds book serial)
    (fits : ∀ jump ∈ jumps ranks part reserved serial, jump < 2 ^ 32) :
    Laid book ranks reserved part.heads serial (writePart ranks part reserved serial) := by
  have written := writePart_written part orderly booked settled reserved serial
    (holds_iff_copies.1 holds) (allows_of_fits fits)
  exact ⟨holds_iff_copies.2 written.copies, written.onward, written.there⟩

theorem holds_empty (capacity : Nat) : Holds book ⟨.withCapacity capacity, ∅⟩ :=
  holds_iff_copies.2 (copies_empty capacity)

/-- From nothing on, the root spans all units in the end. -/
theorem ofLayout_spans (root : Layout Nat .node) (capacity : Nat)
    (booked : ∀ inside ∈ root.within, Booked book inside)
    (fits : ∀ jump ∈ jumps (.ofLayout root) root none ⟨.withCapacity capacity, ∅⟩,
      jump < 2 ^ 32) :
    ∃ after, root.Spans (ofLayout capacity root).buffer.contents after := by
  obtain ⟨orderly, settled⟩ := Ranks.ofLayout_orderly root booked
  have written := writePart_written root orderly booked settled none _ (copies_empty capacity)
    (allows_of_fits fits)
  obtain ⟨⟨after, copied⟩, _⟩ := written.whole root nofun booked
  exact ⟨after, spans_iff_copied.2 copied⟩

end Serial

namespace PackedTrie

/-- The distances of the jumps in the trie of ascending entries. -/
def jumps (sharing : Sharing) (entries : List Entry) : List Nat :=
  Serial.jumps (.ofLayout (layout sharing entries)) (layout sharing entries) none
    ⟨.withCapacity (capacity entries), ∅⟩

/-- The numbered layout is in a book. -/
theorem layout_booked (sharing : Sharing) (entries : List Entry) :
    ∃ book, ∀ inside ∈ (layout sharing entries).within, Booked book inside := by
  obtain ⟨book, _, _, entered⟩ :=
    sharing.number_keeps (Layout.ofEntries entries) Sharing.keeps_empty
  have own : Booked book (.node (layout sharing entries)) :=
    ⟨entered _ (List.mem_cons_self ..), fun deep member =>
      entered deep (List.mem_cons_of_mem _ member)⟩
  exact ⟨book, List.forall_mem_cons.2 ⟨own, fun deep member => own.inner member⟩⟩

/-- The units of a trie are the serial form of a sound layout for the same entries. -/
theorem ofEntries_spans (sharing : Sharing) (entries : List Entry)
    (fits : ∀ jump ∈ jumps sharing entries, jump < 2 ^ 32) :
    ∃ after, (layout sharing entries).Spans (ofEntries sharing entries).units.toList after := by
  obtain ⟨book, booked⟩ := layout_booked sharing entries
  obtain ⟨after, spans⟩ := Serial.ofLayout_spans _ (capacity entries) booked fits
  refine ⟨after, ?_⟩
  unfold ofEntries
  rw [TailBuffer.toList_units]
  exact spans

end PackedTrie

end SentenceBreaks.Trie
