import SentenceBreaks.Boundary.Boundaries
import SentenceBreaks.Boundary.Terminator

/-! A detector is a text, a rule that finds the boundaries of a text, and a cursor over those of
the present one. A new text is searched with the same rule, and the cursor starts over. -/

namespace SentenceBreaks

structure Detector where
  rule : List Char → List Nat
  text : List Char
  boundaries : Boundaries

namespace Detector

/-- A detector over boundaries that are already known; the rule serves later texts. -/
def withBoundaries (rule : List Char → List Nat) (text : List Char) (offsets : List Nat) :
    Detector := ⟨rule, text, .ofOffsets offsets⟩

def ofRule (rule : List Char → List Nat) (text : List Char) : Detector :=
  withBoundaries rule text (rule text)

def terminator (text : List Char) (terminators : List Char) : Detector :=
  ofRule (Terminator.boundaries terminators) text

/-- The rule under which a text is one piece. -/
def ends (text : List Char) : List Nat := [0, Text.byteLength text]

def setText (text : List Char) (d : Detector) : Detector := ofRule d.rule text

def length (d : Detector) : Nat := Text.byteLength d.text

def current (d : Detector) : Nat := d.boundaries.current

/-- Applies a move of the cursor. -/
def move (step : Boundaries → Option Nat × Boundaries) (d : Detector) : Option Nat × Detector :=
  let result := step d.boundaries
  (result.1, { d with boundaries := result.2 })

def first (d : Detector) : Detector := { d with boundaries := d.boundaries.first }
def last (d : Detector) : Detector := { d with boundaries := d.boundaries.last }

def isBoundary (offset : Nat) (d : Detector) : Bool × Detector :=
  let result := d.boundaries.isBoundary offset
  (result.1, { d with boundaries := result.2 })

end Detector

end SentenceBreaks
