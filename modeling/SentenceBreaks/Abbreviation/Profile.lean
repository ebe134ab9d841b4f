import SentenceBreaks.Text.Blank
import SentenceBreaks.Abbreviation.Abbreviations

/-! A profile is the list of abbreviations of one language, with its code and name. It is sound if
the code, the separator and the abbreviations are not blank. -/

namespace SentenceBreaks

structure Profile where
  code : List Char
  name : List Char
  separator : Char
  suppressAfter : List (List Char)
deriving Repr, DecidableEq

namespace Profile

inductive Defect
  | codeBlank
  | separatorBlank
  | abbreviationBlank (index : Nat)
deriving Repr, DecidableEq

def Defect.message : Defect → String
  | .codeBlank => "metadata.code must not be empty"
  | .separatorBlank => "exceptions.separator must not be whitespace"
  | .abbreviationBlank index => "exceptions.suppress_after[" ++ toString index ++ "] is blank"

def isBlank (text : List Char) : Bool := text.all Text.isBlank

/-- The first thing wrong with a profile. -/
def defect? (profile : Profile) : Option Defect :=
  if isBlank profile.code then some .codeBlank
  else if Text.isBlank profile.separator then some .separatorBlank
  else (profile.suppressAfter.findIdx? isBlank).map .abbreviationBlank

end Profile

namespace Abbreviations

def ofProfile (profile : Profile) : Abbreviations :=
  suppressAll profile.suppressAfter ⟨[], profile.separator⟩

end Abbreviations

end SentenceBreaks
