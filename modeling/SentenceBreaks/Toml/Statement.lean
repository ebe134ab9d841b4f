import SentenceBreaks.Toml.Value
import SentenceBreaks.Toml.Filler
import SentenceBreaks.Toml.Quoted
import SentenceBreaks.Toml.Number
import SentenceBreaks.Toml.Moment

/-! The statements of a TOML document, one on a line: the definition of a key, or the header of a
table or of one more table of an array. Readers answer what they read and the characters behind it;
their fuel is enough for the length of the document. -/

namespace SentenceBreaks.Toml

inductive Statement
  | define (path : List Key) (key : Key) (value : Value)
  | header (path : List Key) (key : Key)
  | element (path : List Key) (key : Key)

namespace Statement

def isBare (c : Char) : Bool :=
  ('a' ≤ c && c ≤ 'z') || ('A' ≤ c && c ≤ 'Z') || ('0' ≤ c && c ≤ '9') || c = '_' || c = '-'

def simpleKey (cs : List Char) : Option (Key × List Char) :=
  match cs with
  | '"' :: _ => Quoted.inLine cs
  | '\'' :: _ => Quoted.inLine cs
  | _ =>
      let bare := cs.takeWhile isBare
      if bare.isEmpty then none else some (bare, cs.dropWhile isBare)

/-- How many dots a key may have. -/
def dotLimit : Nat := 79

/-- A key with the keys in front of it, which dots separate, and up to so many dots more. -/
def dottedKey (dots : Nat) (path : List Key) (cs : List Char) :
    Option (List Key × Key × List Char) := do
  let (key, rest) ← simpleKey (skipSpaces cs)
  match dots, skipSpaces rest with
  | dots + 1, '.' :: rest => dottedKey dots (path ++ [key]) rest
  | _, rest => return (path, key, rest)

/-- Characters that do not end a number, a time or a truth value. -/
def isScalar (c : Char) : Bool := !"=,[]\x7b\x7d# \t\r\n".toList.contains c

def scalarValue? (cs : List Char) : Option Value :=
  if cs = "true".toList || cs = "false".toList || Moment.isMoment cs then some .plain
  else (Number.read cs).map .number

/-- A value without quotes or brackets. One space may stand between a date and a time. -/
def scalar (cs : List Char) : Option (Value × List Char) := do
  let token := cs.takeWhile isScalar
  match Moment.isDate token, cs.dropWhile isScalar with
  | true, ' ' :: rest =>
      if rest.head?.any (Text.isDigit 10) then
        let time := rest.takeWhile isScalar
        return (← scalarValue? (token ++ ' ' :: time), rest.dropWhile isScalar)
      else return (← scalarValue? token, ' ' :: rest)
  | _, rest => return (← scalarValue? token, rest)

mutual

def value : (fuel depth : Nat) → List Char → Option (Value × List Char)
  | 0, _, _ => none
  | fuel + 1, depth, '[' :: rest => do
      if depth = 0 then none
      let (items, rest) ← items fuel (depth - 1) [] rest
      return (.array items, rest)
  | fuel + 1, depth, '\x7b' :: rest => do
      if depth = 0 then none
      let (fields, rest) ← fields fuel (depth - 1) [] rest
      return (.table .inline fields, rest)
  | _ + 1, _, cs =>
      if cs.head? = some '"' || cs.head? = some '\'' then do
        let (text, rest) ← Quoted.read cs
        return (.text text, rest)
      else scalar cs

/-- The rest of an array, with the items read before, last one first. -/
def items : (fuel depth : Nat) → (read : List Value) → List Char →
    Option (List Value × List Char)
  | 0, _, _, _ => none
  | fuel + 1, depth, read, cs =>
      match skipFiller false cs with
      | ']' :: rest => some (read.reverse, rest)
      | cs => do
          let (item, rest) ← value fuel depth cs
          match skipFiller false rest with
          | ',' :: rest => items fuel depth (item :: read) rest
          | ']' :: rest => return ((item :: read).reverse, rest)
          | _ => none

/-- The rest of an inline table, with what was defined before. -/
def fields : (fuel depth : Nat) → Fields → List Char → Option (Fields × List Char)
  | 0, _, _, _ => none
  | fuel + 1, depth, defined, cs =>
      match skipFiller false cs with
      | '\x7d' :: rest => some (defined, rest)
      | cs => do
          let (path, key, rest) ← dottedKey dotLimit [] cs
          let rest ← behind '=' (skipFiller false rest)
          let (value, rest) ← value fuel depth (skipFiller false rest)
          let (_, defined) ← Fields.define path key value .header defined
          match skipFiller false rest with
          | ',' :: rest => fields fuel depth defined rest
          | '\x7d' :: rest => return (defined, rest)
          | _ => none

end

/-- How deep values may be nested. -/
def depthLimit : Nat := 80

def read (cs : List Char) : Option (Statement × List Char) :=
  match cs with
  | '[' :: '[' :: rest => do
      let (path, key, rest) ← dottedKey dotLimit [] rest
      return (.element path key, ← behind ']' (← behind ']' rest))
  | '[' :: rest => do
      let (path, key, rest) ← dottedKey dotLimit [] rest
      return (.header path key, ← behind ']' rest)
  | _ => do
      let (path, key, rest) ← dottedKey dotLimit [] cs
      let text := skipSpaces (← behind '=' rest)
      let (value, rest) ← value (2 * text.length + 1) depthLimit text
      return (.define path key value, rest)

/-- What stands behind the end of a line, before which there may be a comment. -/
def lineEnd (cs : List Char) : Option (List Char) :=
  let rest := skipSpaces cs
  match if rest.head? = some '#' then rest.dropWhile isPrintable else rest with
  | [] => some []
  | rest => newline? rest

/-- All statements. -/
def readAll : (fuel : Nat) → List Char → Option (List Statement)
  | 0, _ => none
  | fuel + 1, cs =>
      match skipFiller false cs with
      | [] => some []
      | cs => do
          let (statement, rest) ← read cs
          return statement :: (← readAll fuel (← lineEnd rest))

end Statement

end SentenceBreaks.Toml
