import SentenceBreaks.Text.Offset
import SentenceBreaks.Trie.Draft
import SentenceBreaks.Abbreviation.Abbreviations

/-! Two tries that tell whether a text has an abbreviation right before an offset. The backward trie
holds texts in reverse, and is searched from the offset toward the start. An abbreviation of several
parts has only its opening there; it is confirmed from its start on in the onward trie. -/

namespace SentenceBreaks

open Trie

structure AbbreviationIndex where
  backward : Option PackedTrie
  onward : Option PackedTrie
deriving DecidableEq

namespace AbbreviationIndex

/-- The value of an opening, which the onward trie has to confirm. -/
def openingValue : Int32 := 1

/-- The value of a whole abbreviation. -/
def wholeValue : Int32 := 2

def isEmpty (index : AbbreviationIndex) : Bool := index.backward.isNone && index.onward.isNone

/-- What goes into one of the two tries. -/
inductive Addition
  | backward (text : List Char) (value : Int32)
  | onward (text : List Char)

/-- The way of an abbreviation: whole into the backward trie, or into the onward trie, for which it
may have to take its opening along to the backward trie. -/
inductive Mark
  | whole
  | opens (opening : List Char)
  | joins
deriving Repr, DecidableEq

/-- The mark of an abbreviation after a look at a text of several parts. The text takes its opening
along, but not again; others that begin with the opening join it; a mark that was set stays. -/
def Mark.behind (text opening : List Char) (again : Bool) (other : List Char) : Mark → Mark
  | .whole =>
      if other = text then if again then .whole else .opens opening
      else if opening.isPrefixOf other then .joins
      else .whole
  | mark => mark

/-- Marks an abbreviation of several parts and all others that begin with its opening. If one of
these is marked already, the opening was taken along before. -/
def markFrom (text opening : List Char) (marked : List (List Char × Mark)) :
    List (List Char × Mark) :=
  let again := marked.any fun (other, mark) =>
    other ≠ text && opening.isPrefixOf other && mark ≠ .whole
  marked.map fun (other, mark) => (other, mark.behind text opening again other)

def markMember (separator : Char) (marked : List (List Char × Mark)) (text : List Char) :
    List (List Char × Mark) :=
  match Abbreviations.opening separator text with
  | none => marked
  | some opening =>
      if Abbreviations.isMultiPart separator text then markFrom text opening marked else marked

/-- All members in their order, each with its mark. -/
def marks (separator : Char) (members : List (List Char)) : List (List Char × Mark) :=
  members.foldl (markMember separator) (members.map (·, .whole))

def Mark.additions (text : List Char) : Mark → List Addition
  | .whole => [.backward text wholeValue]
  | .opens opening => [.backward opening openingValue, .onward text]
  | .joins => [.onward text]

def additions (separator : Char) (members : List (List Char)) : List Addition :=
  (marks separator members).flatMap fun (text, mark) => mark.additions text

structure Drafts where
  backward : Draft
  onward : Draft

def Drafts.add (drafts : Drafts) : Addition → Except Fault Drafts
  | .backward text value => do
      return { drafts with
        backward := ← drafts.backward.add (Text.Utf16.ofChars text.reverse) value }
  | .onward text => do
      return { drafts with onward := ← drafts.onward.add (Text.Utf16.ofChars text) wholeValue }

def Drafts.of (additions : List Addition) : Except Fault Drafts :=
  additions.foldlM Drafts.add ⟨.empty, .empty⟩

/-- The trie of a draft; a draft without entries needs none. -/
def trieOf (draft : Draft) : Except Fault (Option PackedTrie) :=
  if draft.entries.isEmpty then .ok none
  else (draft.build .closings).map fun (trie, _) => some trie

/-- The message for a fault in the tries of an index. -/
def faultMessage (fault : Fault) : String := "trie error: " ++ fault.message

def ofAbbreviations (abbreviations : Abbreviations) : Except Fault AbbreviationIndex := do
  let drafts ← Drafts.of (additions abbreviations.separator abbreviations.members)
  return ⟨← trieOf drafts.backward, ← trieOf drafts.onward⟩

/-- The value of the longest stored text along some characters, with the text from its far end on.
The characters come nearest first, and `ahead` is the text behind them. -/
def longest (units : Array UInt16) :
    (before ahead : List Char) → Probe → Option (Int32 × List Char) →
      Option (Option (Int32 × List Char))
  | [], _, _, best => some best
  | c :: before, ahead, probe, best => do
      let (standing, moved) ← probe.feedChar units c
      let held ← if standing.isStored then moved.value units else some none
      let longer := (held.map (·, c :: ahead)).or best
      if standing.continues then longest units before (c :: ahead) moved longer else return longer

/-- Whether a text begins with a stored one that no other stored one continues. -/
def beginsWithEnding (units : Array UInt16) : List Char → Probe → Option Bool
  | [], _ => some false
  | c :: rest, probe => do
      let (standing, moved) ← probe.feedChar units c
      if standing.continues then beginsWithEnding units rest moved else return standing = .ending

/-- What stands before and after an offset. One space before it does not count. -/
def around (text : List Char) (offset : Nat) : List Char × List Char :=
  match Text.cut text offset with
  | (' ' :: before, ahead) => (before, ' ' :: ahead)
  | (before, ahead) => (before, ahead)

def confirms (index : AbbreviationIndex) (ahead : List Char) : Option Bool :=
  match index.onward with
  | none => some false
  | some trie => beginsWithEnding trie.units ahead (Probe.atRoot 0)

/-- Whether an abbreviation stands right before an offset; none if a trie leads past its end. -/
def suppresses? (index : AbbreviationIndex) (text : List Char) (offset : Nat) : Option Bool :=
  match index.backward with
  | none => some false
  | some trie => do
      let (before, ahead) := around text offset
      match ← longest trie.units before ahead (Probe.atRoot 0) none with
      | none => return false
      | some (value, start) =>
          if value = wholeValue then return true
          else if value = openingValue then index.confirms start
          else return false

def suppresses (index : AbbreviationIndex) (text : List Char) (offset : Nat) : Bool :=
  (index.suppresses? text offset).getD false

end AbbreviationIndex

end SentenceBreaks
