import SentenceBreaks.Proofs.Trie.SerialWriting
import SentenceBreaks.Proofs.Trie.PlainSize

/-! Sharing never costs more units than it saves. A part that is not written again saves at least
three units, and the jump to where it stands takes at most one unit more. In a list this may push
the jumps in front of it over their limit too, but a list has so few edges that the units saved
outweigh all of it. -/

namespace SentenceBreaks.Trie.Serial

open Layout

variable {ranks : Ranks} {reserved : Option (Nat × Nat)} {before middle after serial : Serial}
  {p : Part}

/-- The units in front of which any jump takes two units at most. -/
def jumpRoom : Nat := 0x3feffff

/-- What writing keeps: no place moves away from where writing goes on. -/
structure Later (before after : Serial) : Prop where
  filled : before.buffer.filled ≤ after.buffer.filled
  ends : ∀ tag stop : Nat, stop ≤ before.buffer.filled → stop ≤ before.ends.getD tag 0 →
    stop ≤ after.ends.getD tag 0

theorem Later.refl : Later serial serial := ⟨Nat.le_refl _, fun _ _ _ place => place⟩

theorem Later.trans (first : Later before middle) (second : Later middle after) :
    Later before after where
  filled := Nat.le_trans first.filled second.filled
  ends tag stop inside place :=
    second.ends tag stop (Nat.le_trans inside first.filled) (first.ends tag stop inside place)

theorem later_write (block : List UInt16) : Later serial (serial.write block) :=
  ⟨Nat.le_add_right _ _, fun _ _ _ place => place⟩

theorem later_finish (tag : Nat) : Later serial (serial.finish tag) := by
  refine ⟨Nat.le_refl _, fun other stop inside place => ?_⟩
  unfold finish
  dsimp only
  rw [Std.HashMap.getD_insert]
  split
  · exact inside
  · exact place

theorem later_place (tag : Nat) {body : Serial → Serial} (written : Later serial (body serial)) :
    Later serial (place ranks reserved tag body serial) := by
  unfold place
  split
  · exact written.trans (later_finish tag)
  · exact Later.refl

theorem later_writeArms (arms : List (UInt16 × Layout.Target Nat)) (serial : Serial) :
    Later serial (writeArms arms serial) := by
  induction arms with
  | nil => exact Later.refl
  | cons arm others ih => exact ih.trans (later_write _)

theorem later_writePart (ranks : Ranks) (part : Layout Nat p) (reserved : Option (Nat × Nat))
    (serial : Serial) : Later serial (writePart ranks part reserved serial) := by
  induction part generalizing reserved serial with
  | closing tag value => exact later_place tag (later_write _)
  | run tag value units next ih => exact later_place tag ((ih _ _).trans (later_write _))
  | fork tag value next ih => exact later_place tag ((ih _ _).trans (later_write _))
  | split tag unit less rest less_ih rest_ih =>
      exact later_place tag (((less_ih _ _).trans (rest_ih _ _)).trans (later_write _))
  | list tag lower unit last lower_ih last_ih =>
      exact later_place tag ((((lower_ih _ _).trans (last_ih _ _)).trans (later_write _)).trans
        (later_writeArms _ _))
  | listClosing tag lower unit value ih =>
      exact later_place tag (((ih _ _).trans (later_write _)).trans (later_writeArms _ _))
  | done => exact Later.refl
  | edge unit target rest target_ih rest_ih => exact (rest_ih _ _).trans (target_ih _ _)
  | edgeClosing unit value rest ih => exact ih _ _

theorem le_filled_place {tag : Nat} {body : Serial → Serial} {inner : List Nat}
    (bound : ∀ jump ∈ inner, jump ≤ (body serial).buffer.filled) :
    ∀ jump ∈ if reserved.all (waits ranks · tag serial) then inner else [],
      jump ≤ (place ranks reserved tag body serial).buffer.filled := by
  unfold place
  split
  · exact bound
  · exact List.forall_mem_nil _

theorem armJumps_le (arms : List (UInt16 × Layout.Target Nat)) (serial : Serial) :
    ∀ jump ∈ armJumps arms serial, jump ≤ (writeArms arms serial).buffer.filled := by
  induction arms with
  | nil => exact List.forall_mem_nil _
  | cons arm others ih =>
      obtain ⟨unit, target⟩ := arm
      have grows := (@later_write (writeArms others serial)
        (unit :: (writeArms others serial).armUnits target)).filled
      have rest : ∀ jump ∈ armJumps others serial,
          jump ≤ (writeArms ((unit, target) :: others) serial).buffer.filled :=
        fun jump member => Nat.le_trans (ih jump member) grows
      cases target with
      | closing value => exact rest
      | tagged tag => exact List.forall_mem_cons.2 ⟨Nat.le_trans (Nat.sub_le _ _) grows, rest⟩

/-- No jump is longer than the units are many. -/
theorem jumps_le (ranks : Ranks) (part : Layout Nat p) (reserved : Option (Nat × Nat))
    (serial : Serial) : ∀ jump ∈ jumps ranks part reserved serial,
      jump ≤ (writePart ranks part reserved serial).buffer.filled := by
  induction part generalizing reserved serial with
  | closing => exact List.forall_mem_nil _
  | run tag value units next ih =>
      rw [jumps, writePart]
      exact le_filled_place fun jump member =>
        Nat.le_trans (ih none serial jump member) (later_write _).filled
  | fork tag value next ih =>
      rw [jumps, writePart]
      exact le_filled_place fun jump member =>
        Nat.le_trans (ih none serial jump member) (later_write _).filled
  | split tag unit less rest less_ih rest_ih =>
      rw [jumps, writePart]
      refine le_filled_place (List.forall_mem_cons.2 ⟨?_, List.forall_mem_append.2 ⟨?_, ?_⟩⟩)
      · exact Nat.le_trans (Nat.sub_le _ _) (later_write _).filled
      · exact fun jump member => Nat.le_trans (rest_ih _ _ jump member) (later_write _).filled
      · exact fun jump member => Nat.le_trans (less_ih _ _ jump member)
          ((later_writePart ranks rest _ _).trans (later_write _)).filled
  | list tag lower unit last lower_ih last_ih =>
      rw [jumps, writePart]
      refine le_filled_place (List.forall_mem_append.2 ⟨armJumps_le _ _,
        List.forall_mem_append.2 ⟨?_, ?_⟩⟩)
      · exact fun jump member => Nat.le_trans (last_ih _ _ jump member)
          ((later_write _).trans (later_writeArms _ _)).filled
      · exact fun jump member => Nat.le_trans (lower_ih _ _ jump member)
          ((later_writePart ranks last _ _).trans
            ((later_write _).trans (later_writeArms _ _))).filled
  | listClosing tag lower unit value ih =>
      rw [jumps, writePart]
      refine le_filled_place (List.forall_mem_append.2 ⟨armJumps_le _ _, ?_⟩)
      exact fun jump member => Nat.le_trans (ih _ _ jump member)
        ((later_write _).trans (later_writeArms _ _)).filled
  | done => exact List.forall_mem_nil _
  | edge unit target rest target_ih rest_ih =>
      rw [jumps, writePart]
      refine List.forall_mem_append.2 ⟨target_ih reserved _, fun jump member => ?_⟩
      exact Nat.le_trans (rest_ih reserved serial jump member)
        (later_writePart ranks target reserved _).filled
  | edgeClosing unit value rest ih => exact ih reserved serial

/-- A part that does not wait is passed over, and the others are written as if nothing were
reserved. -/
theorem writePart_eq (ranks : Ranks) (part : Layout Nat p) (tagged : p ≠ .edges)
    (reserved : Option (Nat × Nat)) (serial : Serial) : ∀ head ∈ part.heads,
      writePart ranks part reserved serial =
        if reserved.all (waits ranks · head.tag serial) then writePart ranks part none serial
        else serial := by
  cases part with
  | closing => exact List.forall_mem_singleton.2 rfl
  | run => exact List.forall_mem_singleton.2 rfl
  | fork => exact List.forall_mem_singleton.2 rfl
  | split => exact List.forall_mem_singleton.2 rfl
  | list => exact List.forall_mem_singleton.2 rfl
  | listClosing => exact List.forall_mem_singleton.2 rfl
  | done => contradiction
  | edge => contradiction
  | edgeClosing => contradiction

/-- Where a part is not passed over, it ends where the units then end. -/
theorem passed_or_written (ranks : Ranks) (part : Layout Nat p) (tagged : p ≠ .edges)
    (reserved : Option (Nat × Nat)) (serial : Serial) {head : Tagged Nat}
    (member : head ∈ part.heads) :
    writePart ranks part reserved serial = serial ∨
      (writePart ranks part reserved serial).buffer.filled ≤
        (writePart ranks part reserved serial).ends.getD head.tag 0 := by
  rw [writePart_eq ranks part tagged reserved serial head member]
  split
  · rw [Std.HashMap.getD_eq_getD_getElem?, ends_writePart ranks part tagged serial head member]
    exact Or.inr (Nat.le_refl _)
  · exact Or.inl rfl

/-- What edges cost in units of their own and save in those of the nodes they lead to, against the
plain sizes of both. A single edge costs a unit more only if its jump was a short one, and all of
several edges do only if two nodes are saved. -/
structure Balance (width ahead plain actual plainBelow actualBelow : Nat) : Prop where
  none : width = 0 → plain = 0
  below : actualBelow ≤ plainBelow
  most : actual ≤ plain + width
  free : actual ≤ plain ∨ actualBelow + 3 ≤ plainBelow
  single : width = 1 → actual ≤ plain ∨ plain = 2 ∧ ahead ≤ 0x3fff
  several : 2 ≤ width → actual + 1 ≤ plain + width ∨ actualBelow + 6 ≤ plainBelow

namespace Balance

variable {width ahead plain actual plainBelow actualBelow : Nat}

/-- Four edges at most save as much as they cost. -/
theorem total (balance : Balance width ahead plain actual plainBelow actualBelow)
    (few : width ≤ 4) : actual + actualBelow ≤ plain + plainBelow := by
  have below := balance.below
  have most := balance.most
  rcases balance.free with cheap | saved
  · omega
  · by_cases one : width ≤ 1
    · omega
    · have several := balance.several (by omega)
      omega

theorem done : Balance 0 ahead 0 0 0 0 := by
  constructor <;> simp

/-- An edge that holds a value costs the same in any case. -/
theorem edgeClosing (balance : Balance width ahead plain actual plainBelow actualBelow)
    (units : Nat) :
    Balance (width + 1) ahead (plain + units) (actual + units) plainBelow actualBelow where
  none := nofun
  below := balance.below
  most := by
    have most := balance.most
    omega
  free := balance.free.imp_left (Nat.add_le_add_right · units)
  single alone := by
    have most := balance.most
    omega
  several _ := by
    have most := balance.most
    omega

/-- An edge that leads on: the node behind it was not written again, or it is no farther than what
stands between. A jump that was a short one gets longer only behind longer units, which the node of
another edge was saved for. -/
theorem edge {node actualNode distance : Nat}
    (balance : Balance width (ahead + node) plain actual plainBelow actualBelow)
    (large : 3 ≤ node) (smaller : actualNode ≤ node) (inside : distance ≤ 0x3ffeffff)
    (reached : actualNode = 0 ∨ distance ≤ actual + ahead) :
    Balance (width + 1) ahead
      (plain + 1 + (Codec.encodeNumber (plain + ahead) false).length)
      (actual + 1 + (Codec.encodeNumber distance false).length)
      (node + plainBelow) (actualNode + actualBelow) := by
  obtain ⟨none, below, most, free, single, several⟩ := balance
  have positive := List.length_pos_iff.2 (Codec.encodeNumber_ne_nil (plain + ahead) false)
  have two := Codec.length_encodeNumber_le_two inside false
  have short : distance ≤ 0x3fff → (Codec.encodeNumber distance false).length = 1 := by
    intro low
    rw [Codec.length_encodeNumber, if_pos low]
  have long : 0x3fff < plain + ahead → 2 ≤ (Codec.encodeNumber (plain + ahead) false).length := by
    intro high
    rw [Codec.length_encodeNumber, if_neg (by omega)]
    split <;> omega
  generalize (Codec.encodeNumber (plain + ahead) false).length = before at *
  generalize (Codec.encodeNumber distance false).length = now at *
  constructor <;> omega

end Balance

/-- A part comes to its plain size at most. Edges also have units of their own, in front of what
follows the nodes that they lead to. -/
structure Thrifty (ranks : Ranks) (part : Layout Nat p) : Prop where
  size : ∀ (reserved : Option (Nat × Nat)) (serial : Serial),
    serial.buffer.filled + part.plainSize ≤ jumpRoom →
      (writePart ranks part reserved serial).buffer.filled ≤ serial.buffer.filled + part.plainSize
  arms : p = .edges → ∀ (reserved : Option (Nat × Nat)) (serial above : Serial) (ahead : Nat),
    serial.buffer.filled + part.plainSize ≤ jumpRoom →
      Later (writePart ranks part reserved serial) above →
        above.buffer.filled ≤ (writePart ranks part reserved serial).buffer.filled + ahead →
          above.buffer.filled + part.armsSize ahead + part.width ≤ 0x3ffeffff →
            ∃ actual below : Nat,
              (writeArms part.arms above).buffer.filled = above.buffer.filled + actual ∧
                (writePart ranks part reserved serial).buffer.filled =
                  serial.buffer.filled + below ∧
                Balance part.width ahead (part.armsSize ahead) actual part.plainSize below

theorem filled_place_le (tag units : Nat) {body : Serial → Serial}
    (written : (body serial).buffer.filled ≤ serial.buffer.filled + units) :
    (place ranks reserved tag body serial).buffer.filled ≤ serial.buffer.filled + units := by
  unfold place
  split
  · exact written
  · exact Nat.le_add_right _ _

/-- The jump of a split: the lower half is there, no farther than the upper one is long, or it was
not written again. -/
theorem thrifty_split {tag : Nat} {unit : UInt16} {less rest : Layout Nat .branch}
    (lower : Thrifty ranks less) (upper : Thrifty ranks rest) :
    Thrifty ranks (.split tag unit less rest) := by
  refine ⟨fun reserved serial room => filled_place_le tag _ ?_, nofun⟩
  simp only [plainSize] at room ⊢
  have beneath := lower.size (reservedFor ranks tag (some rest.branchTag) serial) serial (by omega)
  have written := passed_or_written ranks less Part.branch_ne_edges
    (reservedFor ranks tag (some rest.branchTag) serial) serial (List.mem_singleton.2 rfl)
  generalize writePart ranks less (reservedFor ranks tag (some rest.branchTag) serial) serial =
    placed at beneath written ⊢
  have above := upper.size none placed (by omega)
  have later := later_writePart ranks rest none placed
  generalize writePart ranks rest none placed = done at above later ⊢
  have large := less.two_le_plainSize
  have positive := List.length_pos_iff.2 (Codec.encodeJump_ne_nil rest.plainSize)
  rw [filled_write, List.length_cons]
  rcases written with rfl | there
  · have inside : done.distance less.branchTag ≤ 0x3feffff := by
      unfold distance
      unfold jumpRoom at room
      omega
    have two := Codec.length_encodeJump_le_two inside
    omega
  · have place := later.ends _ _ (Nat.le_refl _) there
    have near : done.distance less.branchTag ≤ rest.plainSize := by
      unfold distance
      simp only [Tagged.tag] at place
      omega
    have short := Codec.length_encodeJump_mono near
    omega

theorem thrifty_list {tag : Nat} {lower : Layout Nat .edges} {unit : UInt16}
    {last : Layout Nat .node} (few : lower.width ≤ 4) (edges : Thrifty ranks lower)
    (child : Thrifty ranks last) : Thrifty ranks (.list tag lower unit last) := by
  refine ⟨fun reserved serial room => filled_place_le tag _ ?_, nofun⟩
  simp only [plainSize] at room ⊢
  have arms := edges.arms rfl (reservedFor ranks tag (some last.nodeTag) serial) serial
  have beneath := edges.size (reservedFor ranks tag (some last.nodeTag) serial) serial (by omega)
  generalize writePart ranks lower (reservedFor ranks tag (some last.nodeTag) serial) serial =
    placed at arms beneath ⊢
  have above := child.size none placed (by omega)
  have later := later_writePart ranks last none placed
  generalize writePart ranks last none placed = done at above later ⊢
  unfold jumpRoom at room
  obtain ⟨actual, below, same, fewer, balance⟩ := arms (done.write [unit]) (1 + last.plainSize)
    (by unfold jumpRoom; omega) (later.trans (later_write _))
    (by rw [filled_write, List.length_singleton]; omega)
    (by rw [filled_write, List.length_singleton]; omega)
  have total := balance.total few
  rw [same, filled_write, List.length_singleton]
  omega

theorem thrifty_listClosing {tag : Nat} {lower : Layout Nat .edges} {unit : UInt16}
    {value : Int32} (few : lower.width ≤ 4) (edges : Thrifty ranks lower) :
    Thrifty ranks (.listClosing tag lower unit value) := by
  refine ⟨fun reserved serial room => filled_place_le tag _ ?_, nofun⟩
  simp only [plainSize] at room ⊢
  have arms := edges.arms rfl (reservedFor ranks tag none serial) serial
  have beneath := edges.size (reservedFor ranks tag none serial) serial (by omega)
  generalize writePart ranks lower (reservedFor ranks tag none serial) serial = placed
    at arms beneath ⊢
  unfold jumpRoom at room
  obtain ⟨actual, below, same, fewer, balance⟩ := arms (placed.write (unit :: closingUnits value))
    (1 + (closingUnits value).length) (by unfold jumpRoom; omega) (later_write _)
    (by rw [filled_write, List.length_cons]; omega)
    (by rw [filled_write, List.length_cons]; omega)
  have total := balance.total few
  rw [same, filled_write, List.length_cons]
  omega

theorem thrifty_edge {unit : UInt16} {target : Layout Nat .node} {rest : Layout Nat .edges}
    (large : 3 ≤ target.plainSize) (node : Thrifty ranks target) (others : Thrifty ranks rest) :
    Thrifty ranks (.edge unit target rest) where
  size reserved serial room := by
    simp only [plainSize] at room ⊢
    have beneath := others.size reserved serial (by omega)
    have own := node.size reserved (writePart ranks rest reserved serial) (by omega)
    rw [writePart]
    omega
  arms _ reserved serial above ahead room later near inside := by
    simp only [plainSize, armsSize, width] at room inside ⊢
    rw [writePart] at later near ⊢
    have beneath := others.size reserved serial (by omega)
    have armed := others.arms rfl reserved serial above (ahead + target.plainSize) (by omega)
    have own := node.size reserved (writePart ranks rest reserved serial) (by omega)
    have written := passed_or_written ranks target Part.node_ne_edges reserved
      (writePart ranks rest reserved serial) (List.mem_singleton.2 rfl)
    have before := later_writePart ranks target reserved (writePart ranks rest reserved serial)
    generalize writePart ranks rest reserved serial = placed at *
    obtain ⟨actual, below, same, fewer, balance⟩ := armed (before.trans later) (by omega) (by omega)
    obtain ⟨more, longer⟩ := Nat.exists_eq_add_of_le before.filled
    have most := balance.most
    have far : (writeArms rest.arms above).distance target.nodeTag =
        above.buffer.filled + actual - above.ends.getD target.nodeTag 0 := by
      rw [distance, same, ends_writeArms]
    refine ⟨actual + 1 + (Codec.encodeNumber ((writeArms rest.arms above).distance
      target.nodeTag) false).length, more + below, ?_, by omega,
      balance.edge large (by omega) (by omega) ?_⟩
    · rw [Layout.arms, writeArms_cons, filled_write, same, List.length_cons, armUnits]
      omega
    · rcases written with passed | there
      · rw [passed] at longer
        omega
      · have place := later.ends _ _ (Nat.le_refl _) there
        simp only [Tagged.tag] at place
        omega

theorem thrifty_edgeClosing {unit : UInt16} {value : Int32} {rest : Layout Nat .edges}
    (others : Thrifty ranks rest) : Thrifty ranks (.edgeClosing unit value rest) where
  size := others.size
  arms _ reserved serial above ahead room later near inside := by
    simp only [armsSize, width] at inside ⊢
    obtain ⟨actual, below, same, fewer, balance⟩ :=
      others.arms rfl reserved serial above ahead room later near (by omega)
    refine ⟨actual + (1 + (closingUnits value).length), below, ?_, fewer, ?_⟩
    · rw [Layout.arms, writeArms_cons, filled_write, same, List.length_cons, armUnits]
      omega
    · rw [Nat.add_assoc (rest.armsSize ahead)]
      exact balance.edgeClosing _

/-- A part whose units stand in front of all those below it. -/
theorem thrifty_lead {tag : Nat} {block : List UInt16} {next : Layout Nat p}
    (below : Thrifty ranks next) (serial : Serial)
    (room : serial.buffer.filled + (block.length + next.plainSize) ≤ jumpRoom) :
    (place ranks reserved tag (fun start => (writePart ranks next none start).write block)
      serial).buffer.filled ≤ serial.buffer.filled + (block.length + next.plainSize) := by
  have beneath := below.size none serial (by omega)
  refine filled_place_le tag _ ?_
  rw [filled_write]
  omega

/-- Every part comes to its plain size at most. -/
theorem thrifty (ranks : Ranks) (part : Layout Nat p) (sound : part.Sound)
    (leadsOn : part.LeadsOn) : Thrifty ranks part := by
  induction part with
  | closing tag value => exact ⟨fun _ serial _ => filled_place_le tag _ (Nat.le_refl _), nofun⟩
  | run tag value units next ih =>
      obtain ⟨_, _, sound⟩ := sound
      exact ⟨fun _ serial room => thrifty_lead (ih sound leadsOn) serial room, nofun⟩
  | fork tag value next ih =>
      obtain ⟨_, _, sound⟩ := sound
      exact ⟨fun _ serial room => thrifty_lead (ih sound leadsOn) serial room, nofun⟩
  | split tag unit less rest less_ih rest_ih =>
      obtain ⟨_, _, _, _, less_sound, rest_sound⟩ := sound
      exact thrifty_split (less_ih less_sound leadsOn.1) (rest_ih rest_sound leadsOn.2)
  | list tag lower unit last lower_ih last_ih =>
      obtain ⟨few, _, lower_sound, last_sound⟩ := sound
      exact thrifty_list (Nat.le_of_lt_succ few) (lower_ih lower_sound leadsOn.1)
        (last_ih last_sound leadsOn.2)
  | listClosing tag lower unit value ih =>
      obtain ⟨few, _, lower_sound⟩ := sound
      exact thrifty_listClosing (Nat.le_of_lt_succ few) (ih lower_sound leadsOn)
  | done =>
      exact ⟨fun _ _ _ => Nat.le_refl _, fun _ _ _ _ _ _ _ _ _ => ⟨0, 0, rfl, rfl, Balance.done⟩⟩
  | edge unit target rest target_ih rest_ih =>
      obtain ⟨_, target_sound, rest_sound⟩ := sound
      obtain ⟨onward, target_leads, rest_leads⟩ := leadsOn
      exact thrifty_edge (target.three_le_plainSize onward target_sound)
        (target_ih target_sound target_leads) (rest_ih rest_sound rest_leads)
  | edgeClosing unit value rest ih =>
      obtain ⟨_, sound⟩ := sound
      exact thrifty_edgeClosing (ih sound leadsOn)

end SentenceBreaks.Trie.Serial
