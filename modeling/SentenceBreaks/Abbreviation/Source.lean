import SentenceBreaks.Toml.Document
import SentenceBreaks.Abbreviation.Language

/-! Where profiles come from: a TOML text, a file with such a text, or the profiles of the library.
A text gives the parts of a profile by name or, in an array, by position. A profile that was read
is sound. -/

namespace SentenceBreaks.Profile

open Toml

inductive Fault
  | malformed
  | unreadableFile
  | malformedFile
  | unsound (defect : Defect)
  | unknownLanguage (code : List Char)
deriving Repr, DecidableEq

def Fault.message : Fault → String
  | .malformed => "TOML parse error"
  | .unreadableFile => "failed to read file"
  | .malformedFile => "failed to parse TOML"
  | .unsound defect => "invalid configuration: " ++ defect.message
  | .unknownLanguage code => "language '" ++ String.ofList code ++ "' not supported"

def byPosition (items : List Value) : List String → List (Option Value)
  | [] => []
  | _ :: names => items.head? :: byPosition items.tail names

/-- The named parts of a value. A table may have others besides, if their numbers fit. -/
def parts? (names : List String) : Value → Option (List (Option Value))
  | .table _ fields =>
      let others := fields.filter fun (key, _) => !names.contains (String.ofList key)
      if Value.fieldsFit others then some (names.map (fields.lookup ·.toList)) else none
  | .array items => some (byPosition items names)
  | .tables items => some (byPosition (items.map (.table .header)) names)
  | _ => none

def text? : Value → Option (List Char)
  | .text chars => some chars
  | _ => none

def texts? : Value → Option (List (List Char))
  | .array items => items.mapM text?
  | _ => none

def character? : Value → Option Char
  | .text [c] => some c
  | _ => none

def ofFields? (fields : Fields) : Option Profile := do
  let [some metadata, some exceptions] ←
    parts? ["metadata", "exceptions"] (.table .header fields) | none
  let [some code, some name] ← parts? ["code", "name"] metadata | none
  let [separator, some suppressAfter] ←
    parts? ["separator", "suppress_after"] exceptions | none
  return ⟨← text? code, ← text? name,
    ← (separator.map character?).getD (some Abbreviations.usualSeparator), ← texts? suppressAfter⟩

/-- A profile from a text, or a fault if the text gives none. -/
def ofText (fault : Fault) (text : List Char) : Except Fault Profile :=
  match (Document.read text).bind ofFields? with
  | none => .error fault
  | some profile =>
      match profile.defect? with
      | none => .ok profile
      | some defect => .error (.unsound defect)

def read (text : List Char) : Except Fault Profile := ofText .malformed text

/-- A profile from the bytes of a file, if there is one. -/
def ofFile (bytes : Option ByteArray) : Except Fault Profile :=
  match bytes.bind String.fromUTF8? with
  | none => .error .unreadableFile
  | some text => ofText .malformedFile text.toList

def ofLanguage (code : List Char) : Except Fault Profile :=
  match Language.profile? code with
  | some profile => .ok profile
  | none => .error (.unknownLanguage code)

end SentenceBreaks.Profile
