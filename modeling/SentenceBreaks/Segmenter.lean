import SentenceBreaks.Boundary.Detector
import SentenceBreaks.Abbreviation.Index

/-! A detector under layers of abbreviations. A layer drops the boundaries that stand right behind
an abbreviation, but neither the start nor the end of the text. The cursor is that of the detector:
a move goes on in its direction until it comes to a boundary that every layer keeps. -/

namespace SentenceBreaks

inductive Direction
  | onward
  | backward
deriving Repr, DecidableEq

namespace Direction

def step : Direction → Boundaries → Option Nat × Boundaries
  | .onward => Boundaries.next
  | .backward => Boundaries.previous

/-- The offset where a direction ends. -/
def limit : Direction → Detector → Nat
  | .onward, detector => detector.length
  | .backward, _ => 0

end Direction

/-- The outermost layer comes first. -/
structure Segmenter where
  layers : List AbbreviationIndex
  detector : Detector

namespace Segmenter

/-- Whether a layer drops an offset on a move in some direction. -/
def drops (direction : Direction) (layer : AbbreviationIndex) (detector : Detector)
    (offset : Nat) : Bool :=
  layer.suppresses detector.text offset && offset ≠ direction.limit detector

/-- Repeats a step while it answers offsets that are dropped. -/
def skip (dropped : Detector → Nat → Bool) (step : Detector → Option Nat × Detector) :
    (fuel : Nat) → Option Nat × Detector → Option Nat × Detector
  | _, (none, detector) => (none, detector)
  | 0, (some offset, detector) => (some offset, detector)
  | fuel + 1, (some offset, detector) =>
      if dropped detector offset then skip dropped step fuel (step detector)
      else (some offset, detector)

/-- A move of the detector, and from where it leads on to a boundary that every layer keeps. No
direction has more steps than there are boundaries. -/
def lead (direction : Direction) : List AbbreviationIndex →
    (Boundaries → Option Nat × Boundaries) → Detector → Option Nat × Detector
  | [], start, detector => detector.move start
  | layer :: inner, start, detector =>
      skip (drops direction layer) (lead direction inner direction.step) detector.boundaries.size
        (lead direction inner start detector)

def keeps (offset : Nat) : List AbbreviationIndex → Detector → Bool × Detector
  | [], detector => detector.isBoundary offset
  | layer :: inner, detector =>
      match keeps offset inner detector with
      | (false, after) => (false, after)
      | (true, after) =>
          (!layer.suppresses after.text offset || offset = 0 || after.length ≤ offset, after)

def ofDetector (detector : Detector) : Segmenter := ⟨[], detector⟩

/-- Puts another layer around. -/
def under (layer : AbbreviationIndex) (s : Segmenter) : Segmenter := ⟨layer :: s.layers, s.detector⟩

/-- Takes the outermost layer off. -/
def inner (s : Segmenter) : Segmenter := ⟨s.layers.tail, s.detector⟩

def text (s : Segmenter) : List Char := s.detector.text
def current (s : Segmenter) : Nat := s.detector.current
def first (s : Segmenter) : Segmenter := ⟨s.layers, s.detector.first⟩
def last (s : Segmenter) : Segmenter := ⟨s.layers, s.detector.last⟩

def setText (text : List Char) (s : Segmenter) : Segmenter := ⟨s.layers, s.detector.setText text⟩

def move (direction : Direction) (start : Boundaries → Option Nat × Boundaries) (s : Segmenter) :
    Option Nat × Segmenter :=
  let result := lead direction s.layers start s.detector
  (result.1, ⟨s.layers, result.2⟩)

def next (s : Segmenter) : Option Nat × Segmenter := s.move .onward Boundaries.next
def previous (s : Segmenter) : Option Nat × Segmenter := s.move .backward Boundaries.previous

/-- Moves by a count of the detector's own boundaries, and on in that direction if need be. -/
def nextBy (count : Int) (s : Segmenter) : Option Nat × Segmenter :=
  s.move (if count < 0 then .backward else .onward) (Boundaries.nextBy count)

def following (offset : Nat) (s : Segmenter) : Option Nat × Segmenter :=
  s.move .onward (Boundaries.following offset)

def preceding (offset : Nat) (s : Segmenter) : Option Nat × Segmenter :=
  s.move .backward (Boundaries.preceding offset)

def isBoundary (offset : Nat) (s : Segmenter) : Bool × Segmenter :=
  let result := keeps offset s.layers s.detector
  (result.1, ⟨s.layers, result.2⟩)

/-- What a move answers, again and again up to the first time that it answers none. -/
def walk (step : Segmenter → Option Nat × Segmenter) :
    (fuel : Nat) → Segmenter → List Nat × Segmenter
  | 0, s => ([], s)
  | fuel + 1, s =>
      match step s with
      | (none, stopped) => ([], stopped)
      | (some offset, moved) =>
          let rest := walk step fuel moved
          (offset :: rest.1, rest.2)

/-- All boundaries from the first to the last. -/
def forward (s : Segmenter) : List Nat × Segmenter :=
  let start := s.first
  let rest := walk next start.detector.boundaries.size start
  (start.current :: rest.1, rest.2)

/-- All boundaries from the last to the first. -/
def backward (s : Segmenter) : List Nat × Segmenter :=
  let start := s.last
  let rest := walk previous start.detector.boundaries.size start
  (start.current :: rest.1, rest.2)

end Segmenter

end SentenceBreaks
