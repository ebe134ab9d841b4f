import SentenceBreaks.Ascending

/-! A set of abbreviations, ascending, with the separator between their parts. -/

namespace SentenceBreaks

structure Abbreviations where
  members : List (List Char)
  separator : Char

namespace Abbreviations

def usualSeparator : Char := '.'

def empty : Abbreviations := ⟨[], usualSeparator⟩

def size (abbreviations : Abbreviations) : Nat := abbreviations.members.length

/-- Adds an abbreviation, and tells whether it is a new one. -/
def suppress (text : List Char) (abbreviations : Abbreviations) : Bool × Abbreviations :=
  match Ascending.insert id text abbreviations.members with
  | some members => (true, { abbreviations with members })
  | none => (false, abbreviations)

/-- Takes an abbreviation out, and tells whether it was there. -/
def unsuppress (text : List Char) (abbreviations : Abbreviations) : Bool × Abbreviations :=
  match Ascending.remove id text abbreviations.members with
  | some members => (true, { abbreviations with members })
  | none => (false, abbreviations)

def suppressAll (texts : List (List Char)) (abbreviations : Abbreviations) : Abbreviations :=
  texts.foldl (fun abbreviations text => (abbreviations.suppress text).2) abbreviations

/-- The part of a text through its first separator. -/
def opening (separator : Char) (text : List Char) : Option (List Char) :=
  match text.dropWhile (· != separator) with
  | [] => none
  | stop :: _ => some (text.takeWhile (· != separator) ++ [stop])

/-- Whether the first separator is there and not the last character. -/
def isMultiPart (separator : Char) (text : List Char) : Bool :=
  1 < (text.dropWhile (· != separator)).length

end Abbreviations

end SentenceBreaks
