import SentenceBreaks.Ascending
import SentenceBreaks.Trie.Packed

/-! A draft collects the entries of a trie. The first trie made from it seals it: from then on it
takes no entry and answers the same trie, until it is cleared. -/

namespace SentenceBreaks.Trie

inductive Fault
  | alreadyBuilt
  | tooLong (length : Nat)
  | duplicate
  | nothingAdded
  | noUnits
deriving Repr, DecidableEq

def lengthLimit : Nat := 0xffff

def Fault.message : Fault → String
  | .alreadyBuilt => "cannot add sequences after build()"
  | .tooLong length =>
      "sequence of " ++ toString length ++ " units exceeds the maximum of " ++ toString lengthLimit
  | .duplicate => "duplicate sequence"
  | .nothingAdded => "no sequences were added"
  | .noUnits => "serialized trie must not be empty"

structure Draft where
  entries : List Entry
  sealed : Option PackedTrie

namespace Draft

def empty : Draft := ⟨[], none⟩

def add (sequence : List UInt16) (value : Int32) (draft : Draft) : Except Fault Draft :=
  if draft.sealed.isSome then .error .alreadyBuilt
  else if lengthLimit < sequence.length then .error (.tooLong sequence.length)
  else
    match Ascending.insert Prod.fst (sequence, value) draft.entries with
    | none => .error .duplicate
    | some entries => .ok ⟨entries, none⟩

/-- The trie of the entries, and the draft sealed with it. -/
def build (sharing : Sharing) (draft : Draft) : Except Fault (PackedTrie × Draft) :=
  match draft.sealed with
  | some trie => .ok (trie, draft)
  | none =>
      if draft.entries.isEmpty then .error .nothingAdded
      else
        let trie := PackedTrie.ofEntries sharing draft.entries
        .ok (trie, ⟨draft.entries, some trie⟩)

/-- Adds entries one after the other, up to the first that is refused. -/
def addAll (entries : List Entry) (draft : Draft) : Except Fault Draft :=
  entries.foldlM (fun draft (sequence, value) => draft.add sequence value) draft

end Draft

/-- The trie that holds some entries, which may come in any order. -/
def PackedTrie.ofList (sharing : Sharing) (entries : List Entry) : Except Fault PackedTrie := do
  let (trie, _) ← (← Draft.empty.addAll entries).build sharing
  return trie

/-- The trie with these units. -/
def PackedTrie.ofUnits (units : Array UInt16) : Except Fault PackedTrie :=
  match ofUnits? units with
  | some trie => .ok trie
  | none => .error .noUnits

end SentenceBreaks.Trie
