import SentenceBreaks.Text.Alphabetic
import SentenceBreaks.Text.Uppercase
import SentenceBreaks.Text.Lowercase
import SentenceBreaks.Text.Numeric
import SentenceBreaks.Text.Blank
import SentenceBreaks.Text.Offset

/-! The terminator rule. A sentence may end after a block of terminators together with the closing
punctuation and white space behind it. It does not end there when the text goes on in lowercase or
with a number, nor at a single full stop between a letter and an uppercase letter, as in "U.S". -/

namespace SentenceBreaks.Terminator

open Text

def usual : List Char := ['.', '!', '?']

def isCloser (c : Char) : Bool :=
  [')', ']', '}', '"', '\'', '\u2019', '\u201d', '\u00bb'].contains c

/-- Whether a block that is the single character `stop` holds the letters around it together. -/
def joinsLetters (before : Option Char) (stop : Char) (after : List Char) : Bool :=
  stop = '.' && before.any isAlphabetic && after.head?.any isUppercase

def continues (c : Char) : Bool := isLowercase c || isNumeric c

/-- The breaks inside the rest of a text, given the character before it and its offset. -/
def breaks (terminators : List Char) (before : Option Char) (offset : Nat) :
    List Char → List Nat
  | [] => []
  | c :: rest =>
      if terminators.contains c then
        let block := rest.takeWhile terminators.contains
        let afterBlock := rest.dropWhile terminators.contains
        if block.isEmpty && joinsLetters before c afterBlock then
          breaks terminators (some c) (offset + c.utf8Size) rest
        else
          let closers := afterBlock.takeWhile isCloser
          let afterClosers := afterBlock.dropWhile isCloser
          let blanks := afterClosers.takeWhile isBlank
          let after := afterClosers.dropWhile isBlank
          let passed := c :: block ++ closers ++ blanks
          let here := offset + byteLength passed
          if after.isEmpty || after.head?.any continues then
            breaks terminators passed.getLast? here after
          else here :: breaks terminators passed.getLast? here after
      else breaks terminators (some c) (offset + c.utf8Size) rest
termination_by text => text.length
decreasing_by
  all_goals
    have block := (List.dropWhile_sublist terminators.contains (l := rest)).length_le
    have closers := (List.dropWhile_sublist isCloser
      (l := rest.dropWhile terminators.contains)).length_le
    have blanks := (List.dropWhile_sublist isBlank
      (l := (rest.dropWhile terminators.contains).dropWhile isCloser)).length_le
    simp only [List.length_cons]
    omega

/-- The boundaries of a text: its start, the breaks inside it, and its end. -/
def boundaries (terminators text : List Char) : List Nat :=
  0 :: breaks terminators none 0 text ++ [byteLength text]

end SentenceBreaks.Terminator
