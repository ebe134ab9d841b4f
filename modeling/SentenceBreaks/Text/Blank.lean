import SentenceBreaks.Text.CharClass

/-! White space: the space and the controls that move along or between lines, the no-break spaces
and the typographic ones. -/

namespace SentenceBreaks.Text

def blankRanges : List (Nat × Nat) := [
  (0x9, 0xd), (0x20, 0x20), (0x85, 0x85), (0xa0, 0xa0), (0x1680, 0x1680), (0x2000, 0x200a),
  (0x2028, 0x2029), (0x202f, 0x202f), (0x205f, 0x205f), (0x3000, 0x3000)
]

def isBlank (c : Char) : Bool := within blankRanges c.toNat

end SentenceBreaks.Text
