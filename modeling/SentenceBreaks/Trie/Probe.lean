import SentenceBreaks.Text.Utf16
import SentenceBreaks.Trie.Codec
import SentenceBreaks.Trie.Layout

/-! A probe follows a sequence through the units of a trie, one unit at a time. It tells where the
sequence so far stands among the stored ones. Every reading answers none when it leads past the
end of the units. -/

namespace SentenceBreaks.Trie

/-- Where a sequence stands: outside all stored ones, within one as a proper beginning, at the
ending of one that no other continues, or passing through a stored one that others continue. -/
inductive Standing
  | outside
  | within
  | ending
  | passing
deriving Repr, DecidableEq

namespace Standing

def isInside (standing : Standing) : Bool := standing ≠ .outside
def isStored (standing : Standing) : Bool := standing = .ending || standing = .passing
def continues (standing : Standing) : Bool := standing = .within || standing = .passing

/-- The standing at a node with this lead. -/
def ofLead (lead : UInt16) : Standing :=
  if lead.toNat < Codec.valueLead then .within
  else if Codec.isClosing lead then .ending
  else .passing

end Standing

/-- A position in the units, none once the sequence is outside. Inside a run, some of its units
are still to come. -/
structure Probe where
  root : Nat
  position : Option Nat
  literals : Nat
deriving Repr, DecidableEq

namespace Probe

def atRoot (root : Nat) : Probe := ⟨root, some root, 0⟩

def reset (probe : Probe) : Probe := atRoot probe.root

def leave (probe : Probe) : Standing × Probe := (.outside, { probe with position := none })

def standing (units : Array UInt16) (probe : Probe) : Option Standing :=
  match probe.position with
  | none => some .outside
  | some position =>
      if 0 < probe.literals then some .within else (units[position]?).map Standing.ofLead

def value (units : Array UInt16) (probe : Probe) : Option (Option Int32) :=
  match probe.position with
  | none => some none
  | some position =>
      if 0 < probe.literals then some none
      else do
        let lead ← units[position]?
        match Standing.ofLead lead with
        | .ending => return some (Codec.ofBits (← Codec.readNumber units position).1)
        | .passing => return some (Codec.ofBits (← Codec.readCarried units position).1)
        | _ => return none

/-- Goes to a position, with some units of a run to come there. -/
def land (units : Array UInt16) (position literals : Nat) (probe : Probe) :
    Option (Standing × Probe) :=
  let landed : Probe := ⟨probe.root, some position, literals⟩
  (landed.standing units).map (·, landed)

/-- Compares a unit with the next one of a run. -/
def followRun (units : Array UInt16) (unit : UInt16) (position length : Nat) (probe : Probe) :
    Option (Standing × Probe) := do
  if unit = (← units[position]?) then probe.land units (position + 1) (length - 1)
  else return probe.leave

/-- The place of what follows a unit in a list of edges, if it is one of them. -/
def scan (units : Array UInt16) (unit : UInt16) : Nat → Nat → Option (Option Nat)
  | 0, _ => some none
  | 1, position => do
      if unit = (← units[position]?) then return some (position + 1) else return none
  | width + 2, position => do
      let candidate ← units[position]?
      let lead ← units[position + 1]?
      if unit = candidate && Codec.isClosing lead then return some (position + 1)
      let (distance, after) ← Codec.readNumber units (position + 1)
      if unit = candidate then return some (after + distance)
      scan units unit (width + 1) after

/-- The place of what follows a unit in a branch, which splits while it is wide. -/
def search (units : Array UInt16) (unit : UInt16) (width position : Nat) : Option (Option Nat) :=
  if Layout.listLimit < width then do
    let middle ← units[position]?
    let (distance, after) ← Codec.readJump units (position + 1)
    if unit < middle then search units unit (width / 2) (after + distance)
    else search units unit (width - width / 2) after
  else scan units unit width position
termination_by width
decreasing_by all_goals unfold Layout.listLimit at *; omega

def followBranch (units : Array UInt16) (unit : UInt16) (width position : Nat) (probe : Probe) :
    Option (Standing × Probe) := do
  match ← search units unit width position with
  | some target => probe.land units target 0
  | none => return probe.leave

/-- Goes through a node of some kind from behind its lead and value. -/
def followKind (units : Array UInt16) (unit : UInt16) (kind position : Nat) (probe : Probe) :
    Option (Standing × Probe) := do
  if Codec.runKind ≤ kind then probe.followRun units unit position (kind - Codec.runKind + 1)
  else if kind = 0 then
    probe.followBranch units unit ((← units[position]?).toNat + 1) (position + 1)
  else probe.followBranch units unit (kind + 1) position

def feed (units : Array UInt16) (unit : UInt16) (probe : Probe) : Option (Standing × Probe) :=
  match probe.position with
  | none => some probe.leave
  | some position =>
      if 0 < probe.literals then probe.followRun units unit position probe.literals
      else do
        let lead ← units[position]?
        match Standing.ofLead lead with
        | .ending => return probe.leave
        | .passing =>
            let (_, after) ← Codec.readCarried units position
            probe.followKind units unit (lead.toNat % Codec.valueLead) after
        | _ => probe.followKind units unit lead.toNat (position + 1)

/-- Feeds the units of a character. When the first of two has nothing behind it, the probe stays
there although the character is outside. -/
def feedChar (units : Array UInt16) (c : Char) (probe : Probe) : Option (Standing × Probe) :=
  if c.toNat < 0x10000 then probe.feed units (UInt16.ofNat c.toNat)
  else do
    let (standing, half) ← probe.feed units (Text.Utf16.high c)
    if standing.continues then half.feed units (Text.Utf16.low c) else return (.outside, half)

/-- Feeds a sequence. Once nothing longer is stored, the rest is outside and the probe stays. -/
def feedAll (units : Array UInt16) (sequence : List UInt16) (probe : Probe) :
    Option (Standing × Probe) := do
  continueFrom (← probe.standing units) probe sequence
where
  continueFrom (standing : Standing) (probe : Probe) : List UInt16 → Option (Standing × Probe)
    | [] => some (standing, probe)
    | unit :: rest =>
        if standing.continues then do
          let (next, moved) ← probe.feed units unit
          continueFrom next moved rest
        else some (.outside, probe)

/-- Feeds text, one character after the other, and stops where feeding its units would. -/
def feedText (units : Array UInt16) (text : List Char) (probe : Probe) :
    Option (Standing × Probe) := do
  through (← probe.standing units) probe text
where
  through (standing : Standing) (probe : Probe) : List Char → Option (Standing × Probe)
    | [] => some (standing, probe)
    | c :: rest =>
        if standing.continues then do
          let (next, moved) ← feedAll.continueFrom units standing probe (Text.Utf16.units c)
          through next moved rest
        else some (.outside, probe)

/-- The value of a sequence, if it is stored. -/
def lookup (units : Array UInt16) (sequence : List UInt16) : Option (Option Int32) := do
  let (standing, probe) ← (atRoot 0).feedAll units sequence
  if standing.isStored then probe.value units else return none

end Probe

end SentenceBreaks.Trie
