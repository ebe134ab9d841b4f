/-! A cursor over the boundaries of a text. The boundaries are ascending offsets, there is always
at least one, and the cursor stands on one of them: those before it are kept nearest first. A move
answers an offset, or none when it leads past an end. -/

namespace SentenceBreaks

structure Boundaries where
  before : List Nat
  current : Nat
  after : List Nat
deriving Repr, DecidableEq

namespace Boundaries

def insert (offset : Nat) : List Nat → List Nat
  | [] => [offset]
  | least :: rest =>
      if offset < least then offset :: least :: rest
      else if offset = least then least :: rest
      else least :: insert offset rest

def sortedDistinct (offsets : List Nat) : List Nat := offsets.foldr insert []

/-- The cursor on the least of some offsets; without any offset, 0 is the only boundary. -/
def ofOffsets (offsets : List Nat) : Boundaries :=
  match sortedDistinct offsets with
  | [] => ⟨[], 0, []⟩
  | least :: rest => ⟨[], least, rest⟩

def offsets (b : Boundaries) : List Nat := b.before.reverse ++ b.current :: b.after

def size (b : Boundaries) : Nat := b.before.length + 1 + b.after.length

def first (b : Boundaries) : Boundaries := rewind b.before b.current b.after
where
  rewind : List Nat → Nat → List Nat → Boundaries
    | [], here, after => ⟨[], here, after⟩
    | nearest :: before, here, after => rewind before nearest (here :: after)

def last (b : Boundaries) : Boundaries := advance b.before b.current b.after
where
  advance (before : List Nat) (here : Nat) : List Nat → Boundaries
    | [] => ⟨before, here, []⟩
    | nearest :: after => advance (here :: before) nearest after

def next : Boundaries → Option Nat × Boundaries
  | ⟨before, here, nearest :: after⟩ => (some nearest, ⟨here :: before, nearest, after⟩)
  | ⟨before, here, []⟩ => (none, ⟨before, here, []⟩)

def previous : Boundaries → Option Nat × Boundaries
  | ⟨nearest :: before, here, after⟩ => (some nearest, ⟨before, nearest, here :: after⟩)
  | ⟨[], here, after⟩ => (none, ⟨[], here, after⟩)

/-- Repeats a move, and stops at the first that answers none. -/
def walk (move : Boundaries → Option Nat × Boundaries) :
    Nat → Boundaries → Option Nat × Boundaries
  | 0, b => (some b.current, b)
  | count + 1, b =>
      match move b with
      | (none, stopped) => (none, stopped)
      | (some _, moved) => walk move count moved

def nextBy (count : Int) (b : Boundaries) : Option Nat × Boundaries :=
  if 0 ≤ count then walk next count.toNat b else walk previous (-count).toNat b

/-- The least boundary above an offset; past the last one the cursor goes to the last. -/
def following (offset : Nat) (b : Boundaries) : Option Nat × Boundaries :=
  match b.offsets.dropWhile (· ≤ offset) with
  | [] => (none, b.last)
  | least :: rest =>
      (some least, ⟨(b.offsets.takeWhile (· ≤ offset)).reverse, least, rest⟩)

/-- The greatest boundary below an offset; before the first one the cursor goes to the first. -/
def preceding (offset : Nat) (b : Boundaries) : Option Nat × Boundaries :=
  match (b.offsets.takeWhile (· < offset)).reverse with
  | [] => (none, b.first)
  | greatest :: rest =>
      (some greatest, ⟨rest, greatest, b.offsets.dropWhile (· < offset)⟩)

/-- Whether an offset is a boundary. The cursor goes there, or else to the following one. -/
def isBoundary (offset : Nat) (b : Boundaries) : Bool × Boundaries :=
  match b.offsets.dropWhile (· < offset) with
  | [] => (false, b.last)
  | least :: rest =>
      (least = offset, ⟨(b.offsets.takeWhile (· < offset)).reverse, least, rest⟩)

theorem offsets_rewind (before : List Nat) (here : Nat) (after : List Nat) :
    (first.rewind before here after).offsets = before.reverse ++ here :: after := by
  induction before generalizing here after with
  | nil => rfl
  | cons nearest before keeps => simp [first.rewind, keeps]

theorem offsets_advance (before : List Nat) (here : Nat) (after : List Nat) :
    (last.advance before here after).offsets = before.reverse ++ here :: after := by
  induction after generalizing before here with
  | nil => rfl
  | cons nearest after keeps => simp [last.advance, keeps]

@[simp] theorem offsets_first (b : Boundaries) : b.first.offsets = b.offsets :=
  offsets_rewind b.before b.current b.after

@[simp] theorem offsets_last (b : Boundaries) : b.last.offsets = b.offsets :=
  offsets_advance b.before b.current b.after

end Boundaries

end SentenceBreaks
