import SentenceBreaks.Trie.Codec
import SentenceBreaks.Trie.TailBuffer
import SentenceBreaks.Trie.Rank

/-! The serial form of a numbered layout. A part is written behind its children, and because units
are written from the end on, it then stands right in front of the last of them; the others are
reached by jumps. Children that rank with the last one are left for it to write. -/

namespace SentenceBreaks.Trie

/-- The units so far, and for each part that is among them how many there were when it was done. -/
structure Serial where
  buffer : TailBuffer
  ends : Std.HashMap Nat Nat

namespace Serial

def write (block : List UInt16) (serial : Serial) : Serial :=
  ⟨serial.buffer.write block, serial.ends⟩

def finish (tag : Nat) (serial : Serial) : Serial :=
  ⟨serial.buffer, serial.ends.insert tag serial.buffer.filled⟩

/-- The distance from here to a part that was written before. -/
def distance (tag : Nat) (serial : Serial) : Nat :=
  serial.buffer.filled - serial.ends.getD tag 0

/-- A part waits to be written if it is not there yet and its rank is not one of those reserved. -/
def waits (ranks : Ranks) (reserved : Nat × Nat) (tag : Nat) (serial : Serial) : Bool :=
  match serial.ends[tag]?, ranks.settled[tag]? with
  | none, some rank => rank < reserved.1 || reserved.2 < rank
  | _, _ => false

/-- The ranks reserved for the last child of a branch: from that of the branch to that of the
child, none if the child is there already, and only that of the branch if there is no child. -/
def reservedFor (ranks : Ranks) (branch : Nat) (child : Option Nat) (serial : Serial) :
    Option (Nat × Nat) :=
  let first := ranks.entered.getD branch 0
  match child with
  | none => some (first, first)
  | some child =>
      if serial.ends.contains child then some (1, 0) else some (first, ranks.settled.getD child 0)

/-- The units of a fork in front of its branch. The width stands in the lead or, if it is large,
behind it. -/
def forkUnits (value : Option Int32) (width : Nat) : List UInt16 :=
  if width ≤ Codec.runKind then Codec.encodeCarried value (width - 1)
  else Codec.encodeCarried value 0 ++ [Codec.unit (width - 1)]

def runUnits (value : Option Int32) (units : List UInt16) : List UInt16 :=
  Codec.encodeCarried value (Codec.runKind + (units.length - 1)) ++ units

def closingUnits (value : Int32) : List UInt16 := Codec.encodeNumber (Codec.bits value) true

theorem forkUnits_ne_nil (value : Option Int32) (width : Nat) : forkUnits value width ≠ [] := by
  unfold forkUnits
  split
  · exact Codec.encodeCarried_ne_nil _ _
  · exact List.append_ne_nil_of_left_ne_nil (Codec.encodeCarried_ne_nil _ _) _

theorem runUnits_ne_nil (value : Option Int32) (units : List UInt16) : runUnits value units ≠ [] :=
  List.append_ne_nil_of_left_ne_nil (Codec.encodeCarried_ne_nil _ _) _

theorem closingUnits_ne_nil (value : Int32) : closingUnits value ≠ [] :=
  Codec.encodeNumber_ne_nil _ true

def armUnits (serial : Serial) : Layout.Target Nat → List UInt16
  | .closing value => closingUnits value
  | .tagged tag => Codec.encodeNumber (serial.distance tag) false

/-- Writes edges in front of what follows them, the last one first. -/
def writeArms (arms : List (UInt16 × Layout.Target Nat)) (serial : Serial) : Serial :=
  arms.foldr (fun (unit, target) after => after.write (unit :: after.armUnits target)) serial

/-- Writes a part by its body. One that is reserved for later is passed over unless it waits. -/
def place (ranks : Ranks) (reserved : Option (Nat × Nat)) (tag : Nat) (body : Serial → Serial)
    (serial : Serial) : Serial :=
  if reserved.all (waits ranks · tag serial) then (body serial).finish tag else serial

/-- Writes a part with all its children in front of the units so far, so that a part which follows
without a jump is always written, and one behind a jump only if it waits. -/
def writePart (ranks : Ranks) :
    {p : Part} → Layout Nat p → Option (Nat × Nat) → Serial → Serial
  | _, .closing tag value, reserved, serial =>
      place ranks reserved tag (write (closingUnits value)) serial
  | _, .run tag value units next, reserved, serial =>
      place ranks reserved tag
        (fun start => (writePart ranks next none start).write (runUnits value units)) serial
  | _, .fork tag value next, reserved, serial =>
      place ranks reserved tag
        (fun start => (writePart ranks next none start).write (forkUnits value next.width)) serial
  | _, .split tag unit less rest, reserved, serial =>
      place ranks reserved tag
        (fun start =>
          let later := reservedFor ranks tag (some rest.branchTag) start
          let above := writePart ranks rest none (writePart ranks less later start)
          above.write (unit :: Codec.encodeJump (above.distance less.branchTag)))
        serial
  | _, .list tag lower unit last, reserved, serial =>
      place ranks reserved tag
        (fun start =>
          let later := reservedFor ranks tag (some last.nodeTag) start
          let above := writePart ranks last none (writePart ranks lower later start)
          writeArms lower.arms (above.write [unit]))
        serial
  | _, .listClosing tag lower unit value, reserved, serial =>
      place ranks reserved tag
        (fun start =>
          let below := writePart ranks lower (reservedFor ranks tag none start) start
          writeArms lower.arms (below.write (unit :: closingUnits value)))
        serial
  | _, .done, _, serial => serial
  | _, .edge _ target rest, reserved, serial =>
      writePart ranks target reserved (writePart ranks rest reserved serial)
  | _, .edgeClosing _ _ rest, reserved, serial => writePart ranks rest reserved serial

attribute [grind =] writePart

/-- All units of a layout. The result does not depend on the first capacity. -/
def ofLayout (capacity : Nat) (root : Layout Nat .node) : Serial :=
  writePart (Ranks.ofLayout root) root none ⟨.withCapacity capacity, ∅⟩

end Serial

end SentenceBreaks.Trie
