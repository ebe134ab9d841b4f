import Std.Data.HashMap
import SentenceBreaks.Trie.Layout

/-! Numbers for the parts of a layout. Parts that are shared get equal numbers when they are equal;
every other part has a number of its own. A part is numbered after its children, so the children's
numbers stand for them, and a signature tells the whole part. -/

namespace SentenceBreaks.Trie

/-- Whether only closing nodes are shared, or all parts. -/
inductive Sharing
  | closings
  | everything
deriving Repr, DecidableEq

inductive Signature
  | closing (value : Int32)
  | run (value : Option Int32) (units : List UInt16) (next : Nat)
  | fork (value : Option Int32) (next : Nat)
  | split (unit : UInt16) (less rest : Nat)
  | list (arms : List (UInt16 × Layout.Target Nat))
deriving DecidableEq, Hashable

structure Registry where
  known : Std.HashMap Signature Nat
  count : Nat

namespace Sharing

def covers : Sharing → Signature → Bool
  | .everything, _ => true
  | .closings, .closing _ => true
  | .closings, _ => false

def fresh (registry : Registry) : Nat × Registry :=
  (registry.count, ⟨registry.known, registry.count + 1⟩)

/-- The number for a signature, which is a known one if the signature is shared. -/
def register (sharing : Sharing) (signature : Signature) (registry : Registry) : Nat × Registry :=
  if sharing.covers signature then
    match registry.known[signature]? with
    | some number => (number, registry)
    | none =>
        (registry.count, ⟨registry.known.insert signature registry.count, registry.count + 1⟩)
  else fresh registry

def number (sharing : Sharing) :
    {p : Part} → Layout Unit p → Registry → Layout Nat p × Registry
  | _, .closing _ value, registry =>
      let own := sharing.register (.closing value) registry
      (.closing own.1 value, own.2)
  | _, .run _ value units next, registry =>
      let after := sharing.number next registry
      let own := sharing.register (.run value units after.1.nodeTag) after.2
      (.run own.1 value units after.1, own.2)
  | _, .fork _ value next, registry =>
      let after := sharing.number next registry
      let own := sharing.register (.fork value after.1.branchTag) after.2
      (.fork own.1 value after.1, own.2)
  | _, .split _ unit less rest, registry =>
      let below := sharing.number less registry
      let above := sharing.number rest below.2
      let own := sharing.register (.split unit below.1.branchTag above.1.branchTag) above.2
      (.split own.1 unit below.1 above.1, own.2)
  | _, .list _ lower unit last, registry =>
      let below := sharing.number lower registry
      let above := sharing.number last below.2
      let own := sharing.register
        (.list (below.1.arms ++ [(unit, .tagged above.1.nodeTag)])) above.2
      (.list own.1 below.1 unit above.1, own.2)
  | _, .listClosing _ lower unit value, registry =>
      let below := sharing.number lower registry
      let own := sharing.register (.list (below.1.arms ++ [(unit, .closing value)])) below.2
      (.listClosing own.1 below.1 unit value, own.2)
  | _, .done, registry => (.done, registry)
  | _, .edge unit target rest, registry =>
      let first := sharing.number target registry
      let others := sharing.number rest first.2
      (.edge unit first.1 others.1, others.2)
  | _, .edgeClosing unit value rest, registry =>
      let others := sharing.number rest registry
      (.edgeClosing unit value others.1, others.2)

attribute [grind =] number

end Sharing

end SentenceBreaks.Trie
