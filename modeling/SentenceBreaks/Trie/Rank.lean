import Std.Data.HashMap
import SentenceBreaks.Trie.Layout

/-! Ranks for the parts of a numbered layout. Parts that are written one behind the other, along the
last edges, have one rank; every edge that needs a jump starts a higher one. The ranks between
that of a branch and that of its last child are those of parts which are written together with the
last child. -/

namespace SentenceBreaks.Trie

/-- The rank at which each branch was entered, and the rank that each part has for good. -/
structure Ranks where
  entered : Std.HashMap Nat Nat
  settled : Std.HashMap Nat Nat

namespace Ranks

def none : Ranks := ⟨∅, ∅⟩

def enter (tag rank : Nat) (ranks : Ranks) : Ranks :=
  ⟨ranks.entered.insert tag rank, ranks.settled⟩

def settle (tag : Nat) (passed : Nat × Ranks) : Nat × Ranks :=
  (passed.1, ⟨passed.2.entered, passed.2.settled.insert tag passed.1⟩)

/-- Ranks a part from a starting rank on, and answers the last rank used. A part that has a rank
already keeps it, and then the starting rank is the last. -/
def assign : {p : Part} → Layout Nat p → Nat → Ranks → Nat × Ranks
  | _, .closing tag _, start, ranks =>
      if ranks.settled.contains tag then (start, ranks) else settle tag (start, ranks)
  | _, .run tag _ _ next, start, ranks =>
      if ranks.settled.contains tag then (start, ranks) else settle tag (assign next start ranks)
  | _, .fork tag _ next, start, ranks =>
      if ranks.settled.contains tag then (start, ranks) else settle tag (assign next start ranks)
  | _, .split tag _ less rest, start, ranks =>
      if ranks.settled.contains tag then (start, ranks)
      else
        let above := assign rest start (ranks.enter tag start)
        settle tag (assign less (above.1 + 1) above.2)
  | _, .list tag lower _ last, start, ranks =>
      if ranks.settled.contains tag then (start, ranks)
      else
        let above := assign last start (ranks.enter tag start)
        settle tag (assign lower above.1 above.2)
  | _, .listClosing tag lower _ _, start, ranks =>
      if ranks.settled.contains tag then (start, ranks)
      else settle tag (assign lower start (ranks.enter tag start))
  | _, .done, start, ranks => (start, ranks)
  | _, .edge _ target rest, start, ranks =>
      let above := assign rest start ranks
      assign target (above.1 + 1) above.2
  | _, .edgeClosing _ _ rest, start, ranks => assign rest start ranks

attribute [grind =] assign

def ofLayout (root : Layout Nat .node) : Ranks := (assign root 1 none).2

end Ranks

end SentenceBreaks.Trie
