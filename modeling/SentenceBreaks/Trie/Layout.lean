import SentenceBreaks.Trie.Entry

/-! The layout of a trie, before anything is shared or written. A node closes a sequence, or goes on
with a run of up to sixteen units, or forks; the last two may carry the value of a sequence that
ends there. A fork leads to a branch, which is a list of at most five edges or splits in two halves
by the first unit of the upper one. Nodes and branches have tags, which tell equal ones apart. -/

namespace SentenceBreaks.Trie

inductive Part
  | node
  | branch
  | edges

inductive Layout (τ : Type) : Part → Type
  | closing (tag : τ) (value : Int32) : Layout τ .node
  | run (tag : τ) (value : Option Int32) (units : List UInt16) (next : Layout τ .node) :
      Layout τ .node
  | fork (tag : τ) (value : Option Int32) (next : Layout τ .branch) : Layout τ .node
  | split (tag : τ) (unit : UInt16) (less rest : Layout τ .branch) : Layout τ .branch
  | list (tag : τ) (lower : Layout τ .edges) (unit : UInt16) (last : Layout τ .node) :
      Layout τ .branch
  | listClosing (tag : τ) (lower : Layout τ .edges) (unit : UInt16) (value : Int32) :
      Layout τ .branch
  | done : Layout τ .edges
  | edge (unit : UInt16) (target : Layout τ .node) (rest : Layout τ .edges) : Layout τ .edges
  | edgeClosing (unit : UInt16) (value : Int32) (rest : Layout τ .edges) : Layout τ .edges

namespace Layout

variable {τ : Type}

def runLimit : Nat := 16
def listLimit : Nat := 5

def nodeTag : Layout τ .node → τ
  | .closing tag _ => tag
  | .run tag _ _ _ => tag
  | .fork tag _ _ => tag

def branchTag : Layout τ .branch → τ
  | .split tag _ _ _ => tag
  | .list tag _ _ _ => tag
  | .listClosing tag _ _ _ => tag

/-- The number of units that a branch or a list of edges tells apart. -/
def width : {p : Part} → Layout τ p → Nat
  | _, .split _ _ less rest => width less + width rest
  | _, .list _ lower _ _ => width lower + 1
  | _, .listClosing _ lower _ _ => width lower + 1
  | _, .edge _ _ rest => width rest + 1
  | _, .edgeClosing _ _ rest => width rest + 1
  | _, .done => 0
  | _, .closing _ _ => 0
  | _, .run _ _ _ _ => 0
  | _, .fork _ _ _ => 0

/-- The child under an edge, told by its tag. -/
inductive Target (τ : Type)
  | closing (value : Int32)
  | tagged (tag : τ)
deriving DecidableEq, Hashable

/-- The edges of a list with the children under them. -/
def arms : {p : Part} → Layout τ p → List (UInt16 × Target τ)
  | _, .list _ lower unit last => arms lower ++ [(unit, .tagged last.nodeTag)]
  | _, .listClosing _ lower unit value => arms lower ++ [(unit, .closing value)]
  | _, .edge unit target rest => (unit, .tagged target.nodeTag) :: arms rest
  | _, .edgeClosing unit value rest => (unit, .closing value) :: arms rest
  | _, .done => []
  | _, .closing _ _ => []
  | _, .run _ _ _ _ => []
  | _, .fork _ _ _ => []
  | _, .split _ _ _ _ => []

-- A function on layouts has many equations. They are made here, with the function, and not by each
-- of the proofs that read them at the same time.
attribute [grind =] width arms

/-- What follows a unit of a fork: the end of the only sequence there, or a node. -/
inductive Follow
  | closing (value : Int32)
  | onward (next : Layout Unit .node)

/-- Entries by their first units, each without that unit. The entries are ascending, so that those
with the same first unit stand together. -/
def groups : List Entry → List (UInt16 × List Entry)
  | [] => []
  | ([], _) :: rest => groups rest
  | (unit :: sequence, value) :: rest =>
      match groups rest with
      | [] => [(unit, [(sequence, value)])]
      | (next, group) :: others =>
          if unit = next then (unit, (sequence, value) :: group) :: others
          else (unit, [(sequence, value)]) :: (next, group) :: others

def common (first last : List UInt16) : List UInt16 :=
  ((first.zip last).takeWhile fun (u, v) => u = v).map Prod.fst

/-- Pieces of full length, but for the first, which may be shorter. -/
def pieces (units : List UInt16) : List (List UInt16) := units.foldr extend []
where
  extend (unit : UInt16) : List (List UInt16) → List (List UInt16)
    | [] => [[unit]]
    | piece :: others =>
        if piece.length < runLimit then (unit :: piece) :: others else [unit] :: piece :: others

/-- A chain of runs. The first one carries the value. -/
def runs (value : Option Int32) (units : List UInt16) (next : Layout Unit .node) :
    Layout Unit .node :=
  match pieces units with
  | [] => next
  | piece :: others => .run () value piece (others.foldr (.run () none) next)

def edgesOf : List (UInt16 × Follow) → Layout Unit .edges
  | [] => .done
  | (unit, .closing value) :: rest => .edgeClosing unit value (edgesOf rest)
  | (unit, .onward next) :: rest => .edge unit next (edgesOf rest)

def listOf (arms : List (UInt16 × Follow)) : Layout Unit .branch :=
  match arms.getLast? with
  | none => .listClosing () .done 0 0
  | some (unit, .closing value) => .listClosing () (edgesOf arms.dropLast) unit value
  | some (unit, .onward next) => .list () (edgesOf arms.dropLast) unit next

def branch (arms : List (UInt16 × Follow)) : Layout Unit .branch :=
  if listLimit < arms.length then
    match arms.drop (arms.length / 2) with
    | [] => listOf arms
    | (unit, _) :: _ =>
        .split () unit (branch (arms.take (arms.length / 2))) (branch (arms.drop (arms.length / 2)))
  else listOf arms
termination_by arms.length
decreasing_by all_goals unfold listLimit at *; simp; omega

/-- The node for ascending entries, none of them longer than the fuel. -/
def node : Nat → List Entry → Layout Unit .node
  | _, [] => .closing () 0
  | _, [([], value)] => .closing () value
  | 0, _ => .closing () 0
  | fuel + 1, ([], value) :: longer => continuing fuel (some value) longer
  | fuel + 1, longer => continuing fuel none longer
where
  /-- The node for entries that all go on, with the value of the sequence that ends before. -/
  continuing (fuel : Nat) (value : Option Int32) (longer : List Entry) : Layout Unit .node :=
    match longer.head?, longer.getLast? with
    | some first, some last =>
        match common first.1 last.1 with
        | [] =>
            let arms := (groups longer).map fun (unit, group) => (unit, follow fuel group)
            .fork () value (branch arms)
        | shared =>
            let rest := longer.map fun (sequence, value) => (sequence.drop shared.length, value)
            runs value shared (node fuel rest)
    | _, _ => .closing () 0
  follow (fuel : Nat) : List Entry → Follow
    | [([], value)] => .closing value
    | group => .onward (node fuel group)

def ofEntries (entries : List Entry) : Layout Unit .node :=
  node ((entries.map (·.1.length)).foldl max 0) entries

end Layout

end SentenceBreaks.Trie
