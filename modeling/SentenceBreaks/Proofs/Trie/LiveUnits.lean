import SentenceBreaks.Proofs.Trie.Places
import SentenceBreaks.Proofs.Trie.ClearBranches

/-! Which units of a trie are in use. Everything that is written follows what was written before it
or is led to by a jump. Where a branch is not clear, the jump leads to the second copy of a part,
and the first one is lost. Where all branches are clear, all units are reached from the root. -/

namespace SentenceBreaks.Trie

/-- Where a node or a branch begins. -/
def Tagged.place {τ : Type} : Tagged τ → Nat → Place
  | .node _, position => .node position
  | .branch part, position => .branch part.width position

namespace Serial

open Layout

variable {book : List Signature} {ranks : Ranks} {reserved : Option (Nat × Nat)}
  {before after serial : Serial} {p : Part} {tag : Nat} {units : Array UInt16}

/-! From the end of an array on which a state has written. -/

theorem filled_le_of_suffix (suffix : serial.buffer.contents <:+ units.toList) :
    serial.buffer.filled ≤ units.size := by
  rw [← TailBuffer.length_contents, ← Array.length_toList]
  exact suffix.length_le

theorem drop_of_suffix (suffix : serial.buffer.contents <:+ units.toList) :
    units.toList.drop (units.size - serial.buffer.filled) = serial.buffer.contents := by
  rw [List.suffix_iff_eq_drop, TailBuffer.length_contents, Array.length_toList] at suffix
  exact suffix.symm

theorem suffix_of_onward (onward : Onward before after)
    (suffix : after.buffer.contents <:+ units.toList) :
    before.buffer.contents <:+ units.toList := by
  obtain ⟨block, longer⟩ := onward.longer
  rw [longer] at suffix
  exact (List.suffix_append ..).trans suffix

theorem suffix_of_write {block : List UInt16}
    (suffix : (serial.write block).buffer.contents <:+ units.toList) :
    serial.buffer.contents <:+ units.toList :=
  suffix_of_onward (onward_write block) suffix

theorem suffix_of_writeArms {arms : List (UInt16 × Target Nat)}
    (suffix : (writeArms arms serial).buffer.contents <:+ units.toList) :
    serial.buffer.contents <:+ units.toList := by
  induction arms with
  | nil => exact suffix
  | cons arm others ih => exact ih (suffix_of_write suffix)

/-- A jump leads to where the part stands that it was written for. -/
theorem jump_of_ends {stop : Nat} (suffix : serial.buffer.contents <:+ units.toList)
    (found : serial.ends[tag]? = some stop) (inside : stop ≤ serial.buffer.filled) :
    units.size - serial.buffer.filled + serial.distance tag = units.size - stop := by
  have room := filled_le_of_suffix suffix
  rw [distance_of_ends found]
  omega

/-- A block that was just written begins so far from the start, and the rest follows it. -/
theorem position_of_write {block : List UInt16}
    (suffix : (serial.write block).buffer.contents <:+ units.toList) :
    units.toList.drop (units.size - (serial.write block).buffer.filled) =
        block ++ serial.buffer.contents ∧
      units.size - (serial.write block).buffer.filled + block.length =
        units.size - serial.buffer.filled := by
  have room := filled_le_of_suffix suffix
  rw [drop_of_suffix suffix, contents_write, filled_write] at *
  exact ⟨rfl, by omega⟩

/-- The units that are written from one state to another can all be reached from some heads, which
stand where they are said to. Where ranks are reserved these were not there before, and their
own ranks are not reserved. -/
def Rooted (ranks : Ranks) (reserved : Option (Nat × Nat)) (units : Array UInt16)
    (heads : List (Tagged Nat)) (before after : Serial) : Prop :=
  ∀ index, units.size - after.buffer.filled ≤ index → index < units.size - before.buffer.filled →
    ∃ head ∈ heads, ∃ stop, after.ends[head.tag]? = some stop ∧ stop ≤ after.buffer.filled ∧
      (reserved ≠ none → ¬ Present head.tag before ∧ ¬ HeldBack ranks reserved head.tag) ∧
      (head.place (units.size - stop)).Reaches units index

theorem rooted_place {part : Tagged Nat} {body : Serial → Serial} (own : part.tag = tag)
    (suffix : (place ranks reserved tag body serial).buffer.contents <:+ units.toList)
    (reached : (body serial).buffer.contents <:+ units.toList →
      ∀ index, units.size - (body serial).buffer.filled ≤ index →
        index < units.size - serial.buffer.filled →
          (part.place (units.size - (body serial).buffer.filled)).Reaches units index) :
    Rooted ranks reserved units [part] serial (place ranks reserved tag body serial) := by
  subst own
  unfold place at suffix ⊢
  intro index low high
  split at suffix
  next written =>
    rw [if_pos written] at low ⊢
    refine ⟨part, List.mem_cons_self, _, Std.HashMap.getElem?_insert_self, Nat.le_refl _, ?_,
      reached suffix index low high⟩
    intro some_range
    obtain ⟨range, rfl⟩ := Option.ne_none_iff_exists'.1 some_range
    simp only [Option.all_some, waits] at written
    split at written
    next rank absent found =>
      constructor
      · rintro ⟨stop, there⟩
        rw [absent] at there
        contradiction
      · rintro ⟨other, own, same, ranked, least, most⟩
        obtain rfl := Option.some.inj same
        obtain rfl := Option.some.inj (found.symm.trans ranked)
        simp only [Bool.or_eq_true, decide_eq_true_eq] at written
        omega
    next => contradiction
  next passed =>
    rw [if_neg passed] at low
    omega

/-- A node or a branch that is written in any case stands at the end of the units. -/
theorem Rooted.top (part : Layout Nat p) (tagged : p ≠ .edges)
    (rooted : Rooted ranks none units part.heads serial (writePart ranks part none serial))
    (index : Nat) (low : units.size - (writePart ranks part none serial).buffer.filled ≤ index)
    (high : index < units.size - serial.buffer.filled) :
    ∃ head ∈ part.heads,
      (head.place (units.size - (writePart ranks part none serial).buffer.filled)).Reaches units
        index := by
  obtain ⟨head, member, stop, found, _, _, reaches⟩ := rooted index low high
  obtain rfl := Option.some.inj
    (found.symm.trans (ends_writePart ranks part tagged serial head member))
  exact ⟨head, member, reaches⟩

theorem laid_of_room (part : Layout Nat p) (orderly : ranks.Orderly book)
    (booked : ∀ inside ∈ part.within, Booked book inside)
    (settled : ∀ inside ∈ part.within, ∃ rank, ranks.settled[inside.tag]? = some rank)
    (holds : Holds book serial)
    (room : (writePart ranks part reserved serial).buffer.filled < 2 ^ 32) :
    Laid book ranks reserved part.heads serial (writePart ranks part reserved serial) :=
  writePart_laid part orderly booked settled reserved serial holds fun jump member =>
    Nat.lt_of_le_of_lt (jumps_le ranks part reserved serial jump member) room

/-- What is written for a jump does not follow anything else without one. -/
def Spared (ranks : Ranks) (reserved : Option (Nat × Nat)) (serial : Serial)
    (heads inlined : List (Tagged Nat)) : Prop :=
  reserved ≠ none ∧ ∀ head ∈ heads, ¬ Present head.tag serial →
    ¬ HeldBack ranks reserved head.tag → ∀ deep ∈ inlined, deep.tag ≠ head.tag

/-- A jump below a clear branch leads to what is there, or is within the last child, or else is
written for the jump only. -/
theorem spared_of_clear {branch child : Nat} {heads inside inlined : List (Tagged Nat)}
    (clear : ranks.Clear branch (some child) heads inlined)
    (shut : Ranks.Reserves.Shut ranks branch child heads inside)
    (there : Present child serial → ∀ part ∈ inside, Present part.tag serial) :
    Spared ranks (reservedFor ranks branch (some child) serial) serial heads inlined := by
  refine ⟨reservedFor_ne_none ranks branch (some child) serial, fun head member absent free => ?_⟩
  refine (clear head member).resolve_left ?_
  rintro ⟨_, ⟨rfl⟩, rank, found, low, high⟩
  by_cases present : Present child serial
  · exact absent (there present head (shut head member rank found low high))
  · have missing : serial.ends.contains child = false := by
      rw [Std.HashMap.contains_eq_isSome_getElem?, Option.isSome_eq_false_iff,
        Option.isNone_iff_eq_none, Option.eq_none_iff_forall_ne_some]
      exact fun stop found => present ⟨stop, found⟩
    refine free ⟨(ranks.entered.getD branch 0, ranks.settled.getD child 0), rank, ?_, found, low,
      high⟩
    rw [reservedFor, missing]
    rfl

theorem Spared.mono {heads fewer inlined less : List (Tagged Nat)}
    (spared : Spared ranks reserved serial heads inlined) (part : ∀ head ∈ fewer, head ∈ heads)
    (among : ∀ deep ∈ less, deep ∈ inlined) : Spared ranks reserved serial fewer less :=
  ⟨spared.1, fun head member absent free deep deeper =>
    spared.2 head (part head member) absent free deep (among deep deeper)⟩

/-- The edges that stand in front of other units are read back to these, and lead to where the nodes
stand that they were written for. -/
theorem readEdges_writeArms (lower : Layout Nat p) (edges : p = .edges)
    (small : units.size < 2 ^ 32) (base : Serial)
    (suffix : (writeArms lower.arms base).buffer.contents <:+ units.toList) :
    ∃ places, Place.readEdges units (lower.width + 1)
        (units.size - (writeArms lower.arms base).buffer.filled) =
          some (units.size - base.buffer.filled + 1, places) ∧
      .node (units.size - base.buffer.filled + 1) ∈ places ∧
      ∀ head ∈ lower.targets, ∀ stop, base.ends[head.tag]? = some stop →
        stop ≤ base.buffer.filled → head.place (units.size - stop) ∈ places := by
  induction lower with
  | closing => contradiction
  | run => contradiction
  | fork => contradiction
  | split => contradiction
  | list => contradiction
  | listClosing => contradiction
  | done => exact ⟨_, rfl, List.mem_cons_self, List.forall_mem_nil _⟩
  | edge unit target rest _ ih =>
      rw [arms, writeArms_cons] at suffix ⊢
      obtain ⟨here, further⟩ := position_of_write suffix
      obtain ⟨places, read, last, others⟩ := ih rfl (suffix_of_write suffix)
      have room := filled_le_of_suffix (suffix_of_write suffix)
      have later := (later_writeArms rest.arms base).filled
      have fits : (writeArms rest.arms base).distance target.nodeTag < 2 ^ 32 :=
        Nat.lt_of_le_of_lt (Nat.le_trans (Nat.sub_le ..) room) small
      rw [List.length_cons, Nat.add_comm _ 1, armUnits] at further
      rw [← further] at read
      refine ⟨_, Place.readEdges_jump fits here read, List.mem_cons_of_mem _ last, ?_⟩
      refine List.forall_mem_cons.2 ⟨fun stop found inside => ?_, ?_⟩
      · rw [← ends_writeArms rest.arms, Tagged.tag] at found
        rw [Tagged.place, ← jump_of_ends (suffix_of_write suffix) found (Nat.le_trans inside later),
          ← further]
        exact List.mem_cons_self
      · intro head member stop found inside
        exact List.mem_cons_of_mem _ (others head member stop found inside)
  | edgeClosing unit value rest ih =>
      rw [arms, writeArms_cons] at suffix ⊢
      obtain ⟨here, further⟩ := position_of_write suffix
      obtain ⟨places, read, last, others⟩ := ih rfl (suffix_of_write suffix)
      rw [List.length_cons, Nat.add_comm _ 1, armUnits] at further
      rw [← further] at read
      exact ⟨places, Place.readEdges_closing here read, last, others⟩

/-- Behind the units of a lead come those of what follows it. -/
theorem reaches_behind (part : Layout Nat p) (tagged : p ≠ .edges) {place next : Place}
    {block : List UInt16} {index : Nat}
    (rooted : Rooted ranks none units part.heads serial (writePart ranks part none serial))
    (suffix : ((writePart ranks part none serial).write block).buffer.contents <:+ units.toList)
    (read : place.read? units = some (place.position + block.length, [next]))
    (begins : place.position =
      units.size - ((writePart ranks part none serial).write block).buffer.filled)
    (same : ∀ head ∈ part.heads, head.place (place.position + block.length) = next)
    (low : place.position ≤ index) (high : index < units.size - serial.buffer.filled) :
    place.Reaches units index := by
  have behind := (position_of_write suffix).2
  rw [← begins] at behind
  refine Place.reaches_of_read read low fun past => ?_
  rw [behind] at past
  obtain ⟨head, member, reaches⟩ := rooted.top part tagged index past high
  rw [← behind, same head member] at reaches
  exact ⟨next, List.mem_singleton_self next, reaches⟩

/-- What is below a branch with a last child can be reached from the child, or from what the jumps
of the branch lead to. -/
theorem reaches_below {q : Part} (lower : Layout Nat q) (last : Layout Nat p) (tagged : p ≠ .edges)
    {index : Nat} {inlined : List (Tagged Nat)} {below : Serial}
    (spared : Spared ranks reserved serial lower.heads inlined)
    (among : ∀ deep ∈ last.heads ++ last.inlined, deep ∈ inlined)
    (first : Rooted ranks reserved units lower.heads serial below)
    (second : Rooted ranks none units last.heads below (writePart ranks last none below))
    (low : units.size - (writePart ranks last none below).buffer.filled ≤ index)
    (high : index < units.size - serial.buffer.filled) :
    ∃ head, ∃ stop ≤ (writePart ranks last none below).buffer.filled,
      (head ∈ last.heads ∧ stop = (writePart ranks last none below).buffer.filled ∨
        head ∈ lower.heads ∧ (writePart ranks last none below).ends[head.tag]? = some stop) ∧
      (head.place (units.size - stop)).Reaches units index := by
  by_cases upper : index < units.size - below.buffer.filled
  · obtain ⟨head, member, reaches⟩ := second.top last tagged index low upper
    exact ⟨head, _, Nat.le_refl _, Or.inl ⟨member, rfl⟩, reaches⟩
  · obtain ⟨head, member, stop, found, inside, fresh, reaches⟩ :=
      first index (Nat.not_lt.1 upper) high
    obtain ⟨absent, free⟩ := fresh spared.1
    have apart := spared.2 head member absent free
    have kept := ends_writePart_of_present ranks last
      (fun deep deeper => apart deep (among deep (List.mem_append_right _ deeper))) none below
      ⟨stop, found⟩ fun _ other top => apart other (among other (List.mem_append_left _ top))
    exact ⟨head, stop, Nat.le_trans inside (later_writePart ranks last none below).filled,
      Or.inr ⟨member, kept.trans found⟩, reaches⟩

theorem distance_lt {other : Nat} (room : serial.buffer.filled < 2 ^ 32) :
    serial.distance other < 2 ^ 32 :=
  Nat.lt_of_le_of_lt (Nat.sub_le ..) room

/-- The induction follows the writing. Each unit that was written can be reached from what it was
written for, since nothing that is written meanwhile takes the places of these parts. -/
theorem rooted_writePart (part : Layout Nat p) (orderly : ranks.Orderly book) (sound : part.Sound)
    (clears : ranks.Clears part) (booked : ∀ inside ∈ part.within, Booked book inside)
    (settled : ∀ inside ∈ part.within, ∃ rank, ranks.settled[inside.tag]? = some rank)
    (small : units.size < 2 ^ 32) (reserved : Option (Nat × Nat)) (serial : Serial)
    (holds : Holds book serial)
    (spared : p = .edges → Spared ranks reserved serial part.heads part.inlined)
    (suffix : (writePart ranks part reserved serial).buffer.contents <:+ units.toList) :
    Rooted ranks reserved units part.heads serial (writePart ranks part reserved serial) := by
  induction part generalizing reserved serial with
  | closing tag value =>
      refine rooted_place rfl suffix fun suffix index low high => ?_
      obtain ⟨here, behind⟩ := position_of_write suffix
      exact Place.reaches_of_read (Place.read_closing here) low fun past => by omega
  | run tag value run next ih =>
      obtain ⟨own, booked⟩ := List.forall_mem_cons.1 booked
      obtain ⟨ranked, settled⟩ := List.forall_mem_cons.1 settled
      obtain ⟨some_unit, most, sound⟩ := sound
      refine rooted_place rfl suffix fun suffix index low high => ?_
      have rooted := ih sound clears booked settled none serial holds nofun (suffix_of_write suffix)
      have read := Place.read_run some_unit most (position_of_write suffix).1
      exact reaches_behind next nofun rooted suffix read rfl (List.forall_mem_singleton.2 rfl) low
        high
  | fork tag value next ih =>
      obtain ⟨own, booked⟩ := List.forall_mem_cons.1 booked
      obtain ⟨ranked, settled⟩ := List.forall_mem_cons.1 settled
      obtain ⟨least, most, sound⟩ := sound
      refine rooted_place rfl suffix fun suffix index low high => ?_
      have rooted := ih sound clears booked settled none serial holds nofun (suffix_of_write suffix)
      have read := Place.read_fork least most (position_of_write suffix).1
      exact reaches_behind next nofun rooted suffix read rfl (List.forall_mem_singleton.2 rfl) low
        high
  | split tag unit less rest less_ih rest_ih =>
      obtain ⟨own, booked⟩ := List.forall_mem_cons.1 booked
      obtain ⟨⟨rank, ranked⟩, settled⟩ := List.forall_mem_cons.1 settled
      obtain ⟨rest_booked, less_booked⟩ := List.forall_mem_append.1 booked
      obtain ⟨rest_settled, less_settled⟩ := List.forall_mem_append.1 settled
      obtain ⟨wide, half, _, _, less_sound, rest_sound⟩ := sound
      obtain ⟨clear, less_clears, rest_clears⟩ := clears
      have shut := (orderly _ rank own ranked).2
      refine rooted_place rfl suffix fun suffix index low high => ?_
      have room := Nat.lt_of_le_of_lt (filled_le_of_suffix (suffix_of_write suffix)) small
      have less_room := Nat.lt_of_le_of_lt (later_writePart ranks rest none _).filled room
      have lower_laid := laid_of_room less orderly less_booked less_settled holds less_room
      have upper_laid := laid_of_room rest orderly rest_booked rest_settled lower_laid.holds room
      have lower := less_ih less_sound less_clears less_booked less_settled _ serial holds nofun
        (suffix_of_onward upper_laid.onward (suffix_of_write suffix))
      have upper := rest_ih rest_sound rest_clears rest_booked rest_settled none _ lower_laid.holds
        nofun (suffix_of_write suffix)
      have spared := spared_of_clear clear shut fun present =>
        holds.within_present rest rest_booked (List.forall_mem_singleton.2 present)
      obtain ⟨here, behind⟩ := position_of_write suffix
      have read := Place.read_split wide (distance_lt room) here
      rw [List.length_cons, Nat.add_comm _ 1] at behind
      rw [behind] at read
      refine Place.reaches_of_read read low fun past => ?_
      obtain ⟨head, stop, inside, heads, reaches⟩ := reaches_below less rest nofun spared
        (fun deep member => List.mem_append_left _ member) lower upper past high
      rcases heads with ⟨member, rfl⟩ | ⟨member, found⟩
      · obtain rfl := List.mem_singleton.1 member
        have rest_width : less.width + rest.width - (less.width + rest.width) / 2 = rest.width := by
          omega
        rw [rest_width]
        exact ⟨_, List.mem_cons_of_mem _ (List.mem_singleton_self _), reaches⟩
      · obtain rfl := List.mem_singleton.1 member
        rw [Tagged.place, ← jump_of_ends (suffix_of_write suffix) found inside, half] at reaches
        exact ⟨_, List.mem_cons_self, reaches⟩
  | list tag lower unit last lower_ih last_ih =>
      obtain ⟨own, booked⟩ := List.forall_mem_cons.1 booked
      obtain ⟨⟨rank, ranked⟩, settled⟩ := List.forall_mem_cons.1 settled
      obtain ⟨last_booked, lower_booked⟩ := List.forall_mem_append.1 booked
      obtain ⟨last_settled, lower_settled⟩ := List.forall_mem_append.1 settled
      obtain ⟨narrow, _, lower_sound, last_sound⟩ := sound
      obtain ⟨clear, lower_clears, last_clears⟩ := clears
      have shut := (orderly _ rank own ranked).2
      refine rooted_place rfl suffix fun suffix index low high => ?_
      have base_suffix := suffix_of_writeArms suffix
      have room := Nat.lt_of_le_of_lt (filled_le_of_suffix (suffix_of_write base_suffix)) small
      have lower_room := Nat.lt_of_le_of_lt (later_writePart ranks last none _).filled room
      have lower_laid := laid_of_room lower orderly lower_booked lower_settled holds lower_room
      have upper_laid := laid_of_room last orderly last_booked last_settled lower_laid.holds room
      have spared := spared_of_clear clear shut fun present =>
        holds.within_present last last_booked (List.forall_mem_singleton.2 present)
      have edges := lower_ih lower_sound lower_clears lower_booked lower_settled _ serial holds
        (fun _ => spared.mono (fun _ member => member) fun _ => List.mem_append_right _)
        (suffix_of_onward upper_laid.onward (suffix_of_write base_suffix))
      have child := last_ih last_sound last_clears last_booked last_settled none _ lower_laid.holds
        nofun (suffix_of_write base_suffix)
      obtain ⟨places, read, last_place, others⟩ := readEdges_writeArms lower rfl small _ suffix
      have behind := (position_of_write base_suffix).2
      rw [List.length_singleton] at behind
      rw [behind] at read last_place
      refine Place.reaches_of_read ((Place.read_list narrow _).trans read) low fun past => ?_
      obtain ⟨head, stop, inside, heads, reaches⟩ := reaches_below lower last nofun spared
        (fun deep member => List.mem_append_left _ member) edges child past high
      rcases heads with ⟨member, rfl⟩ | ⟨member, found⟩
      · obtain rfl := List.mem_singleton.1 member
        exact ⟨_, last_place, reaches⟩
      · exact ⟨_, others head member stop found
          (Nat.le_trans inside (later_write [unit]).filled), reaches⟩
  | listClosing tag lower unit value ih =>
      obtain ⟨own, lower_booked⟩ := List.forall_mem_cons.1 booked
      obtain ⟨_, lower_settled⟩ := List.forall_mem_cons.1 settled
      obtain ⟨narrow, _, lower_sound⟩ := sound
      obtain ⟨clear, lower_clears⟩ := clears
      refine rooted_place rfl suffix fun suffix index low high => ?_
      have base_suffix := suffix_of_writeArms suffix
      have spared : Spared ranks (reservedFor ranks tag none serial) serial lower.heads
          lower.inlined := by
        refine ⟨reservedFor_ne_none ranks tag none serial, fun head member _ _ => ?_⟩
        exact (clear head member).resolve_left fun ⟨_, none_last, _⟩ => nomatch none_last
      have edges := ih lower_sound lower_clears lower_booked lower_settled _ serial holds
        (fun _ => spared) (suffix_of_write base_suffix)
      obtain ⟨places, read, last_place, others⟩ := readEdges_writeArms lower rfl small _ suffix
      obtain ⟨here, behind⟩ := position_of_write base_suffix
      refine Place.reaches_of_read ((Place.read_list narrow _).trans read) low fun past => ?_
      by_cases beneath : units.size - (writePart ranks lower (reservedFor ranks tag none serial)
          serial).buffer.filled ≤ index
      · obtain ⟨head, member, stop, found, inside, _, reaches⟩ := edges index beneath high
        exact ⟨_, others head member stop found
          (Nat.le_trans inside (later_write (unit :: closingUnits value)).filled), reaches⟩
      · refine ⟨_, last_place, Place.reaches_of_read
          (Place.read_closing (Codec.drop_of_cons here)) past fun past => ?_⟩
        rw [List.length_cons] at behind
        omega
  | done => exact fun index low high => absurd high (Nat.not_lt.2 low)
  | edge unit target rest target_ih rest_ih =>
      obtain ⟨rest_booked, target_booked⟩ := List.forall_mem_append.1 booked
      obtain ⟨rest_settled, target_settled⟩ := List.forall_mem_append.1 settled
      obtain ⟨_, target_sound, rest_sound⟩ := sound
      obtain ⟨target_clears, rest_clears⟩ := clears
      have rest_spared := (spared rfl).mono (fun _ => List.mem_cons_of_mem _)
        (fun _ => List.mem_append_left _)
      have room := Nat.lt_of_le_of_lt (filled_le_of_suffix suffix) small
      have rest_room := Nat.lt_of_le_of_lt
        (later_writePart ranks target reserved (writePart ranks rest reserved serial)).filled room
      have rest_laid := laid_of_room rest orderly rest_booked rest_settled holds rest_room
      have target_laid :=
        laid_of_room target orderly target_booked target_settled rest_laid.holds room
      have others := rest_ih rest_sound rest_clears rest_booked rest_settled reserved serial holds
        (fun _ => rest_spared) (suffix_of_onward target_laid.onward suffix)
      have own := target_ih target_sound target_clears target_booked target_settled reserved _
        rest_laid.holds nofun suffix
      intro index low high
      by_cases upper : index < units.size - (writePart ranks rest reserved serial).buffer.filled
      · obtain ⟨head, member, stop, found, inside, fresh, reaches⟩ := own index low upper
        obtain rfl := List.mem_singleton.1 member
        refine ⟨_, List.mem_cons_self, stop, found, inside, fun some_range => ?_, reaches⟩
        obtain ⟨absent, free⟩ := fresh some_range
        exact ⟨fun present => absent (rest_laid.onward.kept _ present), free⟩
      · obtain ⟨head, member, stop, found, inside, fresh, reaches⟩ :=
          others index (Nat.not_lt.1 upper) high
        obtain ⟨some_range, spared⟩ := spared rfl
        obtain ⟨absent, free⟩ := fresh some_range
        have apart := spared head (List.mem_cons_of_mem _ member) absent free
        have kept := ends_writePart_of_present ranks target
          (fun deep deeper => apart deep (List.mem_append_right _ deeper)) reserved _
          ⟨stop, found⟩ fun none_range => absurd none_range some_range
        exact ⟨head, List.mem_cons_of_mem _ member, stop, kept.trans found, Nat.le_trans inside
          (later_writePart ranks target reserved _).filled, fun _ => ⟨absent, free⟩, reaches⟩
  | edgeClosing unit value rest ih =>
      exact ih sound.2 clears booked settled reserved serial holds spared suffix

end Serial

namespace PackedTrie

variable {sharing : Sharing} {entries : List Entry}

theorem live_ofEntries (some_entry : entries ≠ []) (sorted : Ascending.Sorted Prod.fst entries)
    (clears : (Ranks.ofLayout (layout sharing entries)).Clears (layout sharing entries))
    (small : (ofEntries sharing entries).units.size < 2 ^ 32) :
    ∀ index < (ofEntries sharing entries).units.size,
      Place.Live (ofEntries sharing entries).units index := by
  obtain ⟨book, booked⟩ := layout_booked sharing entries
  obtain ⟨orderly, settled⟩ := Ranks.ofLayout_orderly _ booked
  have sound := (@layout_faithful sharing entries some_entry sorted).2
  have whole : (Serial.ofLayout (capacity entries) (layout sharing entries)).buffer.contents <:+
      (ofEntries sharing entries).units.toList := by
    rw [ofEntries, TailBuffer.toList_units]
  have rooted := Serial.rooted_writePart _ orderly sound clears booked settled small none _
    (Serial.holds_empty (capacity entries)) (absurd · Part.node_ne_edges) whole
  have start : (ofEntries sharing entries).units.size -
      (Serial.ofLayout (capacity entries) (layout sharing entries)).buffer.filled = 0 := by
    rw [size_ofEntries, Nat.sub_self]
  intro index inside
  obtain ⟨head, member, reaches⟩ :=
    rooted.top (layout sharing entries) Part.node_ne_edges index (start.trans_le (Nat.zero_le _))
      inside
  obtain rfl := List.mem_singleton.1 member
  rw [Place.Live, ← start]
  exact reaches

/-- Distinct sequences make a trie of which all units are in use, if all its branches are clear.
Where only closing nodes are shared they are. -/
theorem live_of_clears (sharing : Sharing) (entries : List Entry) (some_entry : entries ≠ [])
    (distinct : (keys entries).Nodup) (short : ∀ key ∈ keys entries, key.length ≤ lengthLimit)
    (clears : sharing = .everything → Clears sharing entries) :
    ∃ trie, ofList sharing entries = .ok trie ∧
      (trie.units.size < 2 ^ 32 → ∀ index < trie.units.size, Place.Live trie.units index) := by
  obtain ⟨ascending, added, some_ascending, _, sorted, built⟩ := ofList_ok some_entry distinct short
  refine ⟨_, built sharing, live_ofEntries some_ascending sorted ?_⟩
  cases sharing with
  | closings => exact clears_closings some_ascending sorted
  | everything => exact clears rfl _ added

/-- The units of a trie that is laid out and ranked in some way. -/
theorem units_ofEntries {root : Layout Nat .node} {ranks : Ranks} (written : List UInt16)
    (numbered : layout sharing entries = root) (ranked : Ranks.ofLayout root = ranks)
    (contents : ∀ capacity, (Serial.writePart ranks root none
      ⟨.withCapacity capacity, ∅⟩).buffer.contents = written) :
    (ofEntries sharing entries).units = written.toArray := by
  rw [← Array.toList_inj, ofEntries, TailBuffer.toList_units, numbered, Serial.ofLayout, ranked]
  exact contents _

/-- Two sequences that end in the same way. What the jump leads to is left for the last child. -/
theorem live_of_clears_ending :
    ∃ trie, ofList .everything [([97, 120], 1), ([98, 120], 1)] = .ok trie ∧
      trie.units = #[1, 97, 1, 98, 48, 120, 32769] ∧
      ∀ index < trie.units.size, Place.Live trie.units index := by
  have shape : Layout.ofEntries [([97, 120], 1), ([98, 120], 1)] =
      .fork () none (.list () (.edge 97 (.run () none [120] (.closing () 1)) .done) 98
        (.run () none [120] (.closing () 1))) := by
    simp [Layout.ofEntries, Layout.node, Layout.node.continuing, Layout.node.follow, Layout.common,
      Layout.groups, Layout.branch, Layout.listOf, Layout.edgesOf, Layout.runs, Layout.pieces,
      Layout.pieces.extend, Layout.listLimit]
  have numbered : layout .everything [([97, 120], 1), ([98, 120], 1)] =
      .fork 3 none (.list 2 (.edge 97 (.run 1 none [120] (.closing 0 1)) .done) 98
        (.run 1 none [120] (.closing 0 1))) := by
    rw [layout, shape]
    simp [Sharing.number, Sharing.register, Sharing.covers, Layout.nodeTag, Layout.branchTag,
      Layout.arms, Std.HashMap.getElem_insert]
  have ranked : Ranks.ofLayout (.fork 3 none (.list 2 (.edge 97 (.run 1 none [120] (.closing 0 1))
      .done) 98 (.run 1 none [120] (.closing 0 1)))) = ⟨(∅ : Std.HashMap Nat Nat).insert 2 1,
        ((((∅ : Std.HashMap Nat Nat).insert 0 1).insert 1 1).insert 2 2).insert 3 2⟩ := by
    simp [Ranks.ofLayout, Ranks.assign, Ranks.settle, Ranks.enter, Ranks.none]
  have leads : Serial.forkUnits none 2 = [1] ∧ Serial.runUnits none [120] = [48, 120] ∧
      Serial.closingUnits 1 = [32769] := by decide
  have written := units_ofEntries [1, 97, 1, 98, 48, 120, 32769] numbered ranked fun capacity => by
    simp [Serial.writePart, Serial.place, Serial.waits, Serial.reservedFor, Serial.finish,
      Serial.write, Serial.writeArms, Serial.armUnits, Serial.distance, Codec.encodeNumber,
      Codec.unit, Std.HashMap.getElem_insert, Std.HashMap.getD_insert, Layout.width, Layout.arms,
      Layout.nodeTag, leads]
  have clears : Clears .everything [([97, 120], 1), ([98, 120], 1)] := by
    intro draft added
    obtain rfl := Except.ok.inj added
    change (Ranks.ofLayout (layout .everything [([97, 120], 1), ([98, 120], 1)])).Clears
      (layout .everything [([97, 120], 1), ([98, 120], 1)])
    rw [numbered, ranked]
    refine ⟨List.forall_mem_singleton.2 (Or.inl ⟨1, rfl, 1, ?_⟩), ⟨trivial, trivial⟩, trivial⟩
    simp [Layout.nodeTag, Tagged.tag, Std.HashMap.getElem_insert, Std.HashMap.getD_insert]
  obtain ⟨trie, built, live⟩ := live_of_clears .everything [([97, 120], 1), ([98, 120], 1)]
    (by decide) (by decide) (by decide) fun _ => clears
  have same : ofList .everything [([97, 120], 1), ([98, 120], 1)] =
      .ok (ofEntries .everything [([97, 120], 1), ([98, 120], 1)]) := rfl
  obtain rfl := Except.ok.inj (built.symm.trans same)
  exact ⟨_, built, written, live (by rw [written]; decide)⟩

/-- A sequence ends in the last child of the branch that another sequence is in, and in the same way
as a third one that a jump leads to. The jump leads to what the branch wrote, and the three units
that were written for it before are lost. -/
theorem live_of_clears_lost :
    ∃ trie, ofList .everything [([97, 109], 1), ([97, 110, 112], 1), ([98, 112], 1), ([99], 1)] =
        .ok trie ∧ trie.units.size = 17 ∧ ¬ Place.Live trie.units 14 := by
  have shape : Layout.ofEntries [([97, 109], 1), ([97, 110, 112], 1), ([98, 112], 1), ([99], 1)] =
      .fork () none (.listClosing () (.edge 97 (.fork () none (.list () (.edgeClosing 109 1 .done)
        110 (.run () none [112] (.closing () 1)))) (.edge 98 (.run () none [112] (.closing () 1))
          .done)) 99 1) := by
    simp [Layout.ofEntries, Layout.node, Layout.node.continuing, Layout.node.follow, Layout.common,
      Layout.groups, Layout.branch, Layout.listOf, Layout.edgesOf, Layout.runs, Layout.pieces,
      Layout.pieces.extend, Layout.listLimit]
  have numbered : layout .everything
      [([97, 109], 1), ([97, 110, 112], 1), ([98, 112], 1), ([99], 1)] =
      .fork 5 none (.listClosing 4 (.edge 97 (.fork 3 none (.list 2 (.edgeClosing 109 1 .done)
        110 (.run 1 none [112] (.closing 0 1)))) (.edge 98 (.run 1 none [112] (.closing 0 1))
          .done)) 99 1) := by
    rw [layout, shape]
    simp [Sharing.number, Sharing.register, Sharing.covers, Layout.nodeTag, Layout.branchTag,
      Layout.arms, Std.HashMap.getElem_insert]
  have ranked : Ranks.ofLayout (.fork 5 none (.listClosing 4 (.edge 97 (.fork 3 none (.list 2
      (.edgeClosing 109 1 .done) 110 (.run 1 none [112] (.closing 0 1)))) (.edge 98 (.run 1 none
        [112] (.closing 0 1)) .done)) 99 1)) =
      ⟨((∅ : Std.HashMap Nat Nat).insert 4 1).insert 2 3,
        ((((((∅ : Std.HashMap Nat Nat).insert 0 2).insert 1 2).insert 2 3).insert 3 3).insert 4
          3).insert 5 3⟩ := by
    simp [Ranks.ofLayout, Ranks.assign, Ranks.settle, Ranks.enter, Ranks.none]
  have leads : Serial.forkUnits none 2 = [1] ∧ Serial.forkUnits none 3 = [2] ∧
      Serial.runUnits none [112] = [48, 112] ∧ Serial.closingUnits 1 = [32769] := by decide
  have written := units_ofEntries
    [2, 97, 4, 98, 6, 99, 32769, 1, 109, 32769, 110, 48, 112, 32769, 48, 112, 32769] numbered ranked
    fun capacity => by
      simp [Serial.writePart, Serial.place, Serial.waits, Serial.reservedFor, Serial.finish,
        Serial.write, Serial.writeArms, Serial.armUnits, Serial.distance, Codec.encodeNumber,
        Codec.unit, Std.HashMap.getElem_insert, Std.HashMap.getD_insert, Layout.width, Layout.arms,
        Layout.nodeTag, leads]
  refine ⟨_, rfl, ?_⟩
  rw [written]
  exact ⟨rfl, Place.not_reaches_of_closed [.node 0, .branch 3 1, .node 7, .node 11, .node 6,
    .branch 2 8, .node 13] (by decide) (by decide)⟩

end PackedTrie

end SentenceBreaks.Trie
