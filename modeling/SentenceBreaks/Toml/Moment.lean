import SentenceBreaks.Text.Digit
import SentenceBreaks.Toml.Filler

/-! The dates and times of TOML: a date, a time of day, or both with an offset that may be missing.
The seconds of a time may be left out. -/

namespace SentenceBreaks.Toml.Moment

open Text

/-- The number in a fixed count of digits below a limit, and what stands behind it. -/
def fixed (count limit : Nat) (cs : List Char) : Option (Nat × List Char) :=
  let digits := cs.take count
  if digits.length = count && digits.all (isDigit 10) && numeral 10 digits < limit then
    some (numeral 10 digits, cs.drop count)
  else none

def isLeap (year : Nat) : Bool := year % 4 = 0 && (year % 100 ≠ 0 || year % 400 = 0)

def daysIn (year month : Nat) : Nat :=
  if month = 2 then if isLeap year then 29 else 28
  else if [4, 6, 9, 11].contains month then 30
  else 31

/-- What stands behind a date. -/
def date (cs : List Char) : Option (List Char) := do
  let (year, cs) ← fixed 4 10000 cs
  let (month, cs) ← fixed 2 13 (← behind '-' cs)
  let (day, cs) ← fixed 2 (daysIn year month + 1) (← behind '-' cs)
  if month = 0 || day = 0 then none else some cs

def fraction (cs : List Char) : Option (List Char) :=
  match cs with
  | '.' :: rest =>
      if (rest.takeWhile (isDigit 10)).isEmpty then none else some (rest.dropWhile (isDigit 10))
  | _ => some cs

/-- What stands behind a time of day. A minute may have a leap second. -/
def time (cs : List Char) : Option (List Char) := do
  let (_, cs) ← fixed 2 24 cs
  let (_, cs) ← fixed 2 60 (← behind ':' cs)
  match cs with
  | ':' :: rest =>
      let (_, cs) ← fixed 2 61 rest
      fraction cs
  | _ => return cs

/-- What stands behind the offset of a time, if it has one. -/
def offset : List Char → Option (List Char)
  | 'Z' :: rest => some rest
  | 'z' :: rest => some rest
  | [] => some []
  | sign :: rest => do
      if sign ≠ '+' && sign ≠ '-' then none
      let (_, cs) ← fixed 2 24 rest
      let (_, cs) ← fixed 2 60 (← behind ':' cs)
      return cs

def isDelimiter (c : Char) : Bool := c = 'T' || c = 't' || c = ' '

/-- Whether some characters are a date. -/
def isDate (cs : List Char) : Bool := date cs = some []

/-- Whether some characters are a date, a time, or both. -/
def isMoment (cs : List Char) : Bool :=
  isDate cs || time cs = some [] ||
    match date cs with
    | some (c :: rest) => isDelimiter c && ((time rest).bind offset) = some []
    | _ => false

end SentenceBreaks.Toml.Moment
