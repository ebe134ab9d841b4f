import SentenceBreaks.Text.Digit
import SentenceBreaks.Toml.Filler

/-! The text forms of TOML. A basic text has escapes, a literal one has none; either kind may run
over several lines between triple quotes, where a line break right behind the opening quotes does
not count. Readers answer what they read and the characters behind it. -/

namespace SentenceBreaks.Toml.Quoted

open Text

/-- A character by its code point in a number of hexadecimal digits. -/
def codePoint (count : Nat) (cs : List Char) : Option (Char × List Char) :=
  let digits := cs.take count
  let code := numeral 16 digits
  if digits.length = count && digits.all (isDigit 16) && code.isValidChar then
    some (Char.ofNat code, cs.drop count)
  else none

/-- The character that an escape stands for, from behind the backslash. -/
def escape : List Char → Option (Char × List Char)
  | 'b' :: rest => some ('\x08', rest)
  | 't' :: rest => some ('\t', rest)
  | 'n' :: rest => some ('\n', rest)
  | 'f' :: rest => some ('\x0c', rest)
  | 'r' :: rest => some ('\r', rest)
  | 'e' :: rest => some ('\x1b', rest)
  | '"' :: rest => some ('"', rest)
  | '\\' :: rest => some ('\\', rest)
  | 'x' :: rest => codePoint 2 rest
  | 'u' :: rest => codePoint 4 rest
  | 'U' :: rest => codePoint 8 rest
  | _ => none

/-- The rest of a text on one line, up to its closing quote. The characters read before are given,
last one first. -/
def line (quote : Char) (escapes : Bool) :
    (fuel : Nat) → (read : List Char) → List Char → Option (List Char × List Char)
  | 0, _, _ => none
  | _, _, [] => none
  | fuel + 1, read, c :: rest =>
      if c = quote then some (read.reverse, rest)
      else if escapes && c = '\\' then
        match escape rest with
        | some (escaped, rest) => line quote escapes fuel (escaped :: read) rest
        | none => none
      else if isPrintable c then line quote escapes fuel (c :: read) rest
      else none

/-- The rest of a text over several lines. Up to two quotes may stand in front of the three that
close it, and a backslash at the end of a line takes all blanks behind it away. -/
def lines (quote : Char) (escapes : Bool) :
    (fuel : Nat) → (read : List Char) → List Char → Option (List Char × List Char)
  | 0, _, _ => none
  | _, _, [] => none
  | fuel + 1, read, c :: rest =>
      if c = quote then
        let quotes := (c :: rest).takeWhile (· = quote)
        if quotes.length < 3 then
          lines quote escapes fuel (quotes ++ read) ((c :: rest).drop quotes.length)
        else
          let kept := (quotes.drop 3).take 2
          some ((kept ++ read).reverse, (c :: rest).drop (3 + kept.length))
      else if escapes && c = '\\' then
        if (newline? (skipSpaces rest)).isSome then
          lines quote escapes fuel read (skipBreaks rest)
        else
          match escape rest with
          | some (escaped, rest) => lines quote escapes fuel (escaped :: read) rest
          | none => none
      else
        if (newline? (c :: rest)).isSome || isPrintable c then
          lines quote escapes fuel (c :: read) rest
        else none

/-- A text in one line, from its opening quote on. -/
def inLine : List Char → Option (List Char × List Char)
  | '"' :: rest => line '"' true (rest.length + 1) [] rest
  | '\'' :: rest => line '\'' false (rest.length + 1) [] rest
  | _ => none

/-- A text of either form, from its opening quote on. -/
def read : List Char → Option (List Char × List Char)
  | '"' :: '"' :: '"' :: rest =>
      lines '"' true (rest.length + 1) [] ((newline? rest).getD rest)
  | '\'' :: '\'' :: '\'' :: rest =>
      lines '\'' false (rest.length + 1) [] ((newline? rest).getD rest)
  | cs => inLine cs

end SentenceBreaks.Toml.Quoted
