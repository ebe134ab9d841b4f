import SentenceBreaks.Trie.Entry
import SentenceBreaks.Trie.Codec
import SentenceBreaks.Trie.Layout

/-! The entries that some units hold, in ascending order. What is still to be read waits on a stack,
each with the units that lead there, last one first. Opening what is on top puts at most five
others there, all of them further on in the units, so the listing ends. -/

namespace SentenceBreaks.Trie.Listing

inductive Pending
  | node (position : Nat) (path : List UInt16)
  | body (kind position : Nat) (path : List UInt16)
  | branch (width position : Nat) (path : List UInt16)
  | entry (value : Int32) (path : List UInt16)

/-- The children under a list of edges. -/
def openEdges (units : Array UInt16) (path : List UInt16) : Nat → Nat → Option (List Pending)
  | 0, _ => some []
  | 1, position => do
      let unit ← units[position]?
      return [.node (position + 1) (unit :: path)]
  | width + 2, position => do
      let unit ← units[position]?
      let lead ← units[position + 1]?
      let (n, after) ← Codec.readNumber units (position + 1)
      let others ← openEdges units path (width + 1) after
      if Codec.isClosing lead then return .entry (Codec.ofBits n) (unit :: path) :: others
      else return .node (after + n) (unit :: path) :: others

def openBranch (units : Array UInt16) (path : List UInt16) (width position : Nat) :
    Option (List Pending) :=
  if Layout.listLimit < width then do
    let (distance, after) ← Codec.readJump units (position + 1)
    return [.branch (width / 2) (after + distance) path, .branch (width - width / 2) after path]
  else openEdges units path width position

def openRun (units : Array UInt16) (path : List UInt16) (after position : Nat) :
    Option (List Pending) :=
  if after ≤ units.size then
    some [.node after ((units.extract position after).toList.reverse ++ path)]
  else none

def openBody (units : Array UInt16) (path : List UInt16) (kind position : Nat) :
    Option (List Pending) :=
  if Codec.runKind ≤ kind then openRun units path (position + (kind - Codec.runKind + 1)) position
  else if kind = 0 then do
    let count ← units[position]?
    return [.branch (count.toNat + 1) (position + 1) path]
  else some [.branch (kind + 1) position path]

/-- What comes next of something pending: an entry or none, and what is pending then. -/
def open? (units : Array UInt16) : Pending → Option (Option Entry × List Pending)
  | .entry value path => some (some (path.reverse, value), [])
  | .branch width position path => do return (none, ← openBranch units path width position)
  | .body kind position path => do return (none, ← openBody units path kind position)
  | .node position path => do
      let lead ← units[position]?
      if lead.toNat < Codec.valueLead then return (none, [.body lead.toNat (position + 1) path])
      else if Codec.isClosing lead then
        let (n, _) ← Codec.readNumber units position
        return (some (path.reverse, Codec.ofBits n), [])
      else
        let (n, after) ← Codec.readCarried units position
        let kind := lead.toNat % Codec.valueLead
        return (some (path.reverse, Codec.ofBits n), [.body kind after path])

/-- How far something pending is from the end of the units. -/
def height (size : Nat) : Pending → Nat
  | .node position _ => 2 * (size - position)
  | .body _ position _ => 2 * (size - position) + 1
  | .branch _ position _ => 2 * (size - position)
  | .entry _ _ => 0

/-- More than five times as much with each step of height. -/
def worth : Nat → Nat
  | 0 => 1
  | height + 1 => 6 * worth height

def weight (size : Nat) : List Pending → Nat
  | [] => 0
  | top :: rest => worth (height size top) + weight size rest

theorem worth_pos (height : Nat) : 0 < worth height := by
  induction height with
  | zero => simp [worth]
  | succ height positive => simp only [worth]; omega

theorem worth_le {low high : Nat} (below : low ≤ high) : worth low ≤ worth high := by
  induction below with
  | refl => exact Nat.le_refl _
  | step _ ih => simp only [worth]; omega

theorem weight_append (size : Nat) (first second : List Pending) :
    weight size (first ++ second) = weight size first + weight size second := by
  induction first with
  | nil => simp [weight]
  | cons top first sum => simp only [List.cons_append, weight, sum, Nat.add_assoc]

theorem weight_le (size bound : Nat) (stack : List Pending)
    (below : ∀ pending ∈ stack, height size pending ≤ bound) :
    weight size stack ≤ stack.length * worth bound := by
  induction stack with
  | nil => simp [weight]
  | cons top rest ih =>
      have first := worth_le (below top (by simp))
      have others := ih fun pending member => below pending (by simp [member])
      simp only [weight, List.length_cons]
      rw [Nat.add_one_mul]
      omega

theorem weight_lt (size bound : Nat) (stack : List Pending) (few : stack.length ≤ 5)
    (below : ∀ pending ∈ stack, height size pending < bound) :
    weight size stack < worth bound := by
  cases bound with
  | zero =>
      cases stack with
      | nil => simp [weight, worth]
      | cons top rest => exact absurd (below top (by simp)) (by omega)
  | succ bound =>
      have least := weight_le size bound stack fun pending member => by
        have := below pending member
        omega
      have positive := worth_pos bound
      have most : stack.length * worth bound ≤ 5 * worth bound := Nat.mul_le_mul_right _ few
      simp only [worth]
      omega

theorem openEdges_below (units : Array UInt16) (path : List UInt16) (width position : Nat)
    (children : List Pending) (opened : openEdges units path width position = some children) :
    children.length = width ∧
      ∀ child ∈ children, height units.size child < 2 * (units.size - position) := by
  fun_induction openEdges units path width position generalizing children with
  | case1 => simp_all
  | case2 position =>
      obtain ⟨unit, lead, made⟩ := Option.bind_eq_some_iff.1 opened
      have inside := Codec.lt_of_getElem? lead
      simp only [pure, Option.some.injEq] at made
      subst made
      simp [height]
      omega
  | case3 width position ih =>
      obtain ⟨unit, lead, opened⟩ := Option.bind_eq_some_iff.1 opened
      obtain ⟨_, _, opened⟩ := Option.bind_eq_some_iff.1 opened
      obtain ⟨⟨n, after⟩, read, opened⟩ := Option.bind_eq_some_iff.1 opened
      obtain ⟨others, more, opened⟩ := Option.bind_eq_some_iff.1 opened
      have inside := Codec.lt_of_getElem? lead
      have further := Codec.readNumber_advances read
      obtain ⟨length, below⟩ := ih after others more
      have others_below : ∀ child ∈ others, height units.size child < 2 * (units.size - position) :=
        fun child member => by
          have := below child member
          omega
      split at opened
      all_goals
        simp only [pure, Option.some.injEq] at opened
        subst opened
        refine ⟨by simp [length], ?_⟩
        simp only [List.mem_cons, forall_eq_or_imp]
        refine ⟨by simp only [height]; omega, others_below⟩

theorem openBranch_below (units : Array UInt16) (path : List UInt16) (width position : Nat)
    (children : List Pending) (opened : openBranch units path width position = some children) :
    children.length ≤ 5 ∧
      ∀ child ∈ children, height units.size child < 2 * (units.size - position) := by
  unfold openBranch Layout.listLimit at opened
  split at opened
  · obtain ⟨⟨distance, after⟩, read, opened⟩ := Option.bind_eq_some_iff.1 opened
    have further := Codec.readJump_advances read
    simp only [pure, Option.some.injEq] at opened
    subst opened
    simp [height]
    omega
  · have opened := openEdges_below units path width position children opened
    exact ⟨by omega, opened.2⟩

theorem openRun_below (units : Array UInt16) (path : List UInt16) (after position : Nat)
    (further : position < after) (children : List Pending)
    (opened : openRun units path after position = some children) :
    children.length ≤ 5 ∧
      ∀ child ∈ children, height units.size child < 2 * (units.size - position) + 1 := by
  unfold openRun at opened
  split at opened
  · simp only [Option.some.injEq] at opened
    subst opened
    simp [height]
    omega
  · contradiction

theorem openBody_below (units : Array UInt16) (path : List UInt16) (kind position : Nat)
    (children : List Pending) (opened : openBody units path kind position = some children) :
    children.length ≤ 5 ∧
      ∀ child ∈ children, height units.size child < 2 * (units.size - position) + 1 := by
  unfold openBody at opened
  split at opened
  · exact openRun_below units path _ position (by omega) children opened
  · split at opened
    · obtain ⟨count, lead, opened⟩ := Option.bind_eq_some_iff.1 opened
      simp only [pure, Option.some.injEq] at opened
      subst opened
      simp [height]
      omega
    · simp only [Option.some.injEq] at opened
      subst opened
      simp [height]

/-- What is pending after a step weighs less than what was opened. -/
theorem weight_open? (units : Array UInt16) (pending : Pending) (entry : Option Entry)
    (more : List Pending) (opened : open? units pending = some (entry, more)) :
    weight units.size more < worth (height units.size pending) := by
  cases pending with
  | entry value path =>
      simp only [open?, Option.some.injEq, Prod.mk.injEq] at opened
      obtain ⟨_, rfl⟩ := opened
      simp [weight, height, worth]
  | branch width position path =>
      obtain ⟨children, inner, made⟩ := Option.bind_eq_some_iff.1 opened
      simp only [pure, Option.some.injEq, Prod.mk.injEq] at made
      obtain ⟨_, rfl⟩ := made
      obtain ⟨few, below⟩ := openBranch_below _ _ _ _ _ inner
      exact weight_lt _ _ _ few below
  | body kind position path =>
      obtain ⟨children, inner, made⟩ := Option.bind_eq_some_iff.1 opened
      simp only [pure, Option.some.injEq, Prod.mk.injEq] at made
      obtain ⟨_, rfl⟩ := made
      obtain ⟨few, below⟩ := openBody_below _ _ _ _ _ inner
      exact weight_lt _ _ _ few below
  | node position path =>
      obtain ⟨unit, lead, opened⟩ := Option.bind_eq_some_iff.1 opened
      have inside := Codec.lt_of_getElem? lead
      split at opened
      · simp only [pure, Option.some.injEq, Prod.mk.injEq] at opened
        obtain ⟨_, rfl⟩ := opened
        refine weight_lt _ _ _ (by simp) ?_
        simp [height]
        omega
      · split at opened
        · obtain ⟨⟨n, after⟩, _, made⟩ := Option.bind_eq_some_iff.1 opened
          simp only [pure, Option.some.injEq, Prod.mk.injEq] at made
          obtain ⟨_, rfl⟩ := made
          exact weight_lt _ _ [] (by simp) (by simp)
        · obtain ⟨⟨n, after⟩, read, made⟩ := Option.bind_eq_some_iff.1 opened
          have further := Codec.readCarried_advances read
          simp only [pure, Option.some.injEq, Prod.mk.injEq] at made
          obtain ⟨_, rfl⟩ := made
          refine weight_lt _ _ _ (by simp) ?_
          simp [height]
          omega

/-- The next entry with what is pending behind it; none within if nothing is pending any more. -/
def next (units : Array UInt16) : List Pending → Option (Option (Entry × List Pending))
  | [] => some none
  | top :: rest =>
      match _ : open? units top with
      | none => none
      | some (some entry, more) => some (some (entry, more ++ rest))
      | some (none, more) => next units (more ++ rest)
termination_by stack => weight units.size stack
decreasing_by
  have lighter := weight_open? units top none more ‹_›
  rw [weight_append]
  simp only [weight]
  omega

theorem weight_next (units : Array UInt16) (stack : List Pending) (entry : Entry)
    (more : List Pending) (found : next units stack = some (some (entry, more))) :
    weight units.size more < weight units.size stack := by
  fun_induction next units stack with
  | case1 => simp at found
  | case2 => simp at found
  | case3 top rest first others opened =>
      simp only [Option.some.injEq, Prod.mk.injEq] at found
      obtain ⟨_, rfl⟩ := found
      have lighter := weight_open? units top (some first) others opened
      rw [weight_append]
      simp only [weight]
      omega
  | case4 top rest others opened ih =>
      have lighter := weight_open? units top none others opened
      have shorter := ih found
      rw [weight_append] at shorter
      simp only [weight]
      omega

/-- The first entries, at most so many. -/
def take (units : Array UInt16) : Nat → List Pending → Option (List Entry)
  | 0, _ => some []
  | count + 1, stack => do
      match ← next units stack with
      | none => return []
      | some (entry, more) => return entry :: (← take units count more)

/-- All entries that are pending. -/
def all (units : Array UInt16) (stack : List Pending) : Option (List Entry) :=
  match _ : next units stack with
  | none => none
  | some none => some []
  | some (some (entry, more)) => (all units more).map (entry :: ·)
termination_by weight units.size stack
decreasing_by exact weight_next units stack entry more ‹_›

end SentenceBreaks.Trie.Listing
