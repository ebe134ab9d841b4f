/-! Classes of characters as ascending lists of code point ranges. A range holds both its ends,
and the search stops at the first range that starts above the code point. -/

namespace SentenceBreaks.Text

def within : List (Nat × Nat) → Nat → Bool
  | [], _ => false
  | (low, high) :: rest, code =>
      if code < low then false
      else if code ≤ high then true
      else within rest code

end SentenceBreaks.Text
