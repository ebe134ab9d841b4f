import SentenceBreaks.Text.Digit

/-! The numbers of TOML. Underscores may group digits. An integer fits if 128 bits hold it, with or
without a sign, and a decimal if the nearest double is finite. Some characters pass for a number but
cannot fit, such as a base without digits. -/

namespace SentenceBreaks.Toml.Number

open Text

/-- Whether each underscore stands between two digits, of which one may stand in front. -/
def isGrouped (base : Nat) (behindDigit : Bool) : List Char → Bool
  | [] => true
  | '_' :: rest => behindDigit && rest.head?.any (isDigit base) && isGrouped base false rest
  | c :: rest => isGrouped base (isDigit base c) rest

/-- Whether some characters are digits and underscores, with at least one digit. -/
def isDigits (cs : List Char) : Bool :=
  cs.any (isDigit 10) && cs.all fun c => c = '_' || isDigit 10 c

def hasLeadingZero (cs : List Char) : Bool := cs.head? = some '0' && cs.length ≠ 1

def isSign (c : Char) : Bool := c = '+' || c = '-'

def unsigned : List Char → List Char
  | c :: rest => if isSign c then rest else c :: rest
  | [] => []

/-- The greatest numbers of 128 bits, with and without a sign. A negative one may be one greater. -/
def signedLimit : Nat := Nat.pow 2 127 - 1
def unsignedLimit : Nat := Nat.pow 2 128 - 1

/-- Whether some characters write a number up to a limit of 128 bits. -/
def isAtMost (base limit : Nat) (cs : List Char) : Bool :=
  let digits := (cs.filter (isDigit base)).dropWhile (· = '0')
  digits.length ≤ 128 && numeral base digits ≤ limit

/-- The least number that rounds to no finite double. It has 309 digits. -/
def doubleLimit : Nat := Nat.pow 2 1024 - Nat.pow 2 970

/-- Whether the double next to a number is finite that is written with some digits and has to be
multiplied by a power of ten. The whole part tells it, because the limit is whole. -/
def isFinite (digits : List Char) (exponent : Int) : Bool :=
  let digits := digits.dropWhile (· = '0')
  let places : Int := digits.length + exponent
  if digits.isEmpty then true
  else if 309 < places then false
  else
    numeral 10 (digits.take places.toNat) * Nat.pow 10 (places.toNat - digits.length) < doubleLimit

def isExponentMark (c : Char) : Bool := c = 'e' || c = 'E'

/-- The size of an exponent. Digits behind one that brings it to 65536 or more do not count. -/
def exponentSize (cs : List Char) : Nat :=
  (cs.filterMap (digit? 10)).foldl (fun n digit => if n < 65536 then n * 10 + digit else n) 0

/-- Whether a decimal with a fraction, an exponent or both fits; none if it is no such thing. -/
def decimal? (cs : List Char) : Option Bool :=
  let whole := cs.takeWhile fun c => c ≠ '.' && !isExponentMark c
  let behind := cs.dropWhile fun c => c ≠ '.' && !isExponentMark c
  let fraction := (behind.takeWhile (!isExponentMark ·)).drop 1
  let exponent := behind.dropWhile (!isExponentMark ·)
  let power := exponent.drop 1
  let fractionRight := behind.head? ≠ some '.' || isDigits fraction
  let exponentRight := exponent.isEmpty || isDigits (unsigned power)
  if isDigits whole && !hasLeadingZero whole && fractionRight && exponentRight &&
      isGrouped 10 false cs then
    let size : Int := exponentSize power
    let shift := if power.head? = some '-' then -size else size
    let places := (fraction.filter (isDigit 10)).length
    some (isFinite ((whole ++ fraction).filter (isDigit 10)) (shift - places))
  else none

/-- Whether an integer of a base fits. It does not without digits. -/
def inBase? (base : Nat) (cs : List Char) : Option Bool :=
  if cs.all (fun c => c = '_' || isDigit base c) && isGrouped base false cs then
    some (!cs.isEmpty && isAtMost base unsignedLimit cs)
  else none

/-- Whether an integer without its sign is at most a limit. Behind an underscore other characters
than digits may stand, but then it does not fit. -/
def integer? (limit : Nat) (cs : List Char) : Option Bool :=
  let behind := cs.dropWhile (isDigit 10)
  if !cs.isEmpty && (behind.isEmpty || behind.head? = some '_') && !hasLeadingZero cs &&
      isGrouped 16 false cs then
    some (isDigits cs && isAtMost 10 limit cs)
  else none

/-- Whether a number fits; none if the characters are no number. -/
def read (cs : List Char) : Option Bool :=
  let body := unsigned cs
  match cs with
  | '0' :: 'x' :: rest => inBase? 16 rest
  | '0' :: 'o' :: rest => inBase? 8 rest
  | '0' :: 'b' :: rest => inBase? 2 rest
  | _ =>
      if body = "inf".toList || body = "nan".toList then some true
      else if body.any fun c => c = '.' || isExponentMark c then decimal? body
      else integer? (if cs.head? = some '-' then signedLimit + 1 else unsignedLimit) body

end SentenceBreaks.Toml.Number
