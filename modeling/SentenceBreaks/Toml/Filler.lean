/-! What stands between the parts of a TOML document: spaces, line breaks and comments. -/

namespace SentenceBreaks.Toml

def isSpace (c : Char) : Bool := c = ' ' || c = '\t'

/-- Characters that may stand in texts and comments: tabs, and all but control characters. -/
def isPrintable (c : Char) : Bool := c = '\t' || (' ' ≤ c && c ≠ '\x7f')

def skipSpaces (cs : List Char) : List Char := cs.dropWhile isSpace

/-- What stands behind a character that has to come first. -/
def behind (c : Char) : List Char → Option (List Char)
  | first :: rest => if first = c then some rest else none
  | [] => none

def newline? : List Char → Option (List Char)
  | '\n' :: rest => some rest
  | '\r' :: '\n' :: rest => some rest
  | _ => none

/-- Skips spaces and line breaks. -/
def skipBreaks : List Char → List Char
  | [] => []
  | '\r' :: '\n' :: rest => skipBreaks rest
  | c :: rest => if c = '\n' || isSpace c then skipBreaks rest else c :: rest

/-- Skips spaces, line breaks and comments, up to a character that is none of these. -/
def skipFiller (inComment : Bool) : List Char → List Char
  | [] => []
  | '\r' :: '\n' :: rest => skipFiller false rest
  | c :: rest =>
      if c = '\n' then skipFiller false rest
      else if inComment && isPrintable c then skipFiller true rest
      else if !inComment && isSpace c then skipFiller false rest
      else if !inComment && c = '#' then skipFiller true rest
      else c :: rest

end SentenceBreaks.Toml
