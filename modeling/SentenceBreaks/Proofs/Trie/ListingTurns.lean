import SentenceBreaks.Proofs.Trie.ProbeTurns
import Mathlib.Algebra.Group.Nat.Defs

/-! A listing ends on any units. Each of its turns opens what is on top of the stack, after which
the stack weighs less. So there are hardly more turns than the root weighs, and they come to all
entries or to one that cannot be opened since the units end there. -/

namespace SentenceBreaks.Trie

namespace Listing

variable {units : Array UInt16} {path : List UInt16} {width position : Nat}

/-- One turn: the entry that comes next, if any, is added to those found before. -/
def turn (units : Array UInt16) :
    List Entry × List Pending → Option ((List Entry × List Pending) ⊕ List Entry)
  | (found, []) => some (.inr found.reverse)
  | (found, top :: rest) =>
      (open? units top).map fun (entry, more) => .inl (entry.toList ++ found, more ++ rest)

theorem next_cons (top : Pending) (rest : List Pending) : next units (top :: rest) =
    (open? units top).bind fun (entry, more) =>
      entry.elim (next units (more ++ rest)) fun entry => some (some (entry, more ++ rest)) := by
  rw [next]
  split
  next closed => rw [closed]; rfl
  next opened => rw [opened]; rfl
  next opened => rw [opened]; rfl

theorem all_eq (stack : List Pending) : all units stack = (next units stack).bind fun found =>
    found.elim (some []) fun (entry, more) => (all units more).map (entry :: ·) := by
  rw [all]
  split
  next closed => rw [closed]; rfl
  next nothing => rw [nothing]; rfl
  next found => rw [found]; rfl

theorem all_nil : all units [] = some [] := by
  rw [all_eq, next]
  rfl

theorem all_cons (top : Pending) (rest : List Pending) :
    all units (top :: rest) = (open? units top).bind fun (entry, more) =>
      (all units (more ++ rest)).map (entry.toList ++ ·) := by
  rw [all_eq, next_cons]
  cases open? units top with
  | none => rfl
  | some result =>
      obtain ⟨entry, more⟩ := result
      cases entry with
      | none =>
          simp only [Option.bind_some, Option.elim_none, Option.toList_none, List.nil_append,
            Option.map_id']
          rw [← all_eq]
      | some entry => rfl

/-- What a listing comes to from here on. -/
def outcome (units : Array UInt16) (state : List Entry × List Pending) : Option (List Entry) :=
  (all units state.2).map (state.1.reverse ++ ·)

theorem outcome_turn (state : List Entry × List Pending) :
    outcome units state = (turn units state).bind (Sum.elim (outcome units) some) := by
  obtain ⟨found, stack⟩ := state
  cases stack with
  | nil => simp [outcome, turn, all_nil]
  | cons top rest =>
      simp only [outcome, turn, all_cons]
      cases open? units top with
      | none => rfl
      | some result =>
          obtain ⟨entry, more⟩ := result
          simp only [Option.bind_some, Option.map_some, Sum.elim_inl, outcome, Option.map_map]
          cases entry with
          | none => rfl
          | some entry =>
              congr 1
              funext entries
              simp

theorem weight_turn (state next : List Entry × List Pending)
    (onward : turn units state = some (.inl next)) :
    weight units.size next.2 < weight units.size state.2 := by
  obtain ⟨found, stack⟩ := state
  cases stack with
  | nil => nomatch onward
  | cons top rest =>
      obtain ⟨⟨entry, more⟩, opened, same⟩ := Option.map_eq_some_iff.1 onward
      cases same
      have lighter := weight_open? units top entry more opened
      simp only [weight_append, weight]
      omega

/-- The turns of a listing come to all entries. -/
theorem turns_all (units : Array UInt16) (stack : List Pending) :
    ∃ count ≤ weight units.size stack + 1,
      Turns (turn units) ([], stack) count (all units stack) := by
  obtain ⟨count, few, turns⟩ := turns_of_lowers (outcome units)
    (fun state => weight units.size state.2) outcome_turn weight_turn ([], stack)
  have whole : outcome units ([], stack) = all units stack := Option.map_id'
  rw [whole] at turns
  exact ⟨count, few, turns⟩

theorem worth_eq_pow (height : Nat) : worth height = 6 ^ height := by
  induction height with
  | zero => rfl
  | succ height ih => rw [worth, ih, Nat.pow_succ']

/-- A list of edges takes four units at most for each of them. -/
theorem openEdges_of_room (width position : Nat) (room : position + 4 * width ≤ units.size) :
    ∃ children, openEdges units path width position = some children := by
  fun_induction openEdges units path width position with
  | case1 => exact ⟨_, rfl⟩
  | case2 position =>
      have inside : position < units.size := by omega
      obtain ⟨unit, found⟩ := Codec.getElem?_of_room inside
      rw [found]
      exact ⟨_, rfl⟩
  | case3 width position ih =>
      have inside : position < units.size := by omega
      have behind : position + 1 < units.size := by omega
      have more : position + 1 + 2 < units.size := by omega
      obtain ⟨unit, found⟩ := Codec.getElem?_of_room inside
      obtain ⟨lead, second⟩ := Codec.getElem?_of_room behind
      obtain ⟨n, after, read, near⟩ := Codec.readNumber_of_room more
      obtain ⟨others, opened⟩ := ih after (by omega)
      simp only [found, second, read, opened, Option.bind_eq_bind, Option.bind_some]
      split
      · exact ⟨_, rfl⟩
      · exact ⟨_, rfl⟩

/-- The end of the units that opening something pending may need. -/
def Pending.reach : Pending → Nat
  | .node position _ => position + 3
  | .body kind position _ => position + (kind - Codec.runKind + 1)
  | .branch _ position _ => position + 4 * Layout.listLimit
  | .entry _ _ => 0

theorem open?_of_room (pending : Pending) (room : pending.reach ≤ units.size) :
    ∃ result, open? units pending = some result := by
  cases pending with
  | entry value path => exact ⟨_, rfl⟩
  | node position path =>
      have inside : position + 2 < units.size := room
      obtain ⟨lead, found⟩ :=
        Codec.getElem?_of_room (Nat.lt_of_le_of_lt (Nat.le_add_right _ 2) inside)
      obtain ⟨n, after, closing, _⟩ := Codec.readNumber_of_room inside
      obtain ⟨m, behind, carried, _⟩ := Codec.readCarried_of_room inside
      simp only [open?, found, closing, carried, Option.bind_eq_bind, Option.bind_some]
      split
      · exact ⟨_, rfl⟩
      · split
        · exact ⟨_, rfl⟩
        · exact ⟨_, rfl⟩
  | body kind position path =>
      simp only [Pending.reach] at room
      have inside : position < units.size := by omega
      obtain ⟨count, found⟩ := Codec.getElem?_of_room inside
      simp only [open?, openBody, openRun, found, if_pos room, Option.bind_eq_bind,
        Option.bind_some]
      split
      · exact ⟨_, rfl⟩
      · split
        · exact ⟨_, rfl⟩
        · exact ⟨_, rfl⟩
  | branch width position path =>
      simp only [Pending.reach] at room
      have inside : position + 1 + 2 < units.size := by
        unfold Layout.listLimit at room
        omega
      obtain ⟨distance, after, read, _⟩ := Codec.readJump_of_room inside
      simp only [open?, openBranch, read, Option.bind_eq_bind, Option.bind_some]
      split
      · exact ⟨_, rfl⟩
      next narrow =>
        have enough : position + 4 * width ≤ units.size := by omega
        obtain ⟨children, opened⟩ := openEdges_of_room width position enough
        rw [opened]
        exact ⟨_, rfl⟩

end Listing

namespace PackedTrie

/-- On any units, whatever they hold, reading comes to an end. A probe takes at most 23 turns for a
unit, and then it has stopped matching or is further on than before. A listing takes a number of
turns that only depends on how many units there are. A turn that fails needs units beyond the
end. -/
theorem reading_ends (trie : PackedTrie) :
    (∀ (probe : Probe) (unit : UInt16),
      (∃ count ≤ 23, Turns (probe.turn trie.units unit) probe.stage count
        (probe.feed trie.units unit)) ∧
      (∀ answer, probe.feed trie.units unit = some answer →
        answer.1 = .outside ∧ answer.2.position = none ∨
          answer.1 ≠ .outside ∧
            ∃ start ∈ probe.position, ∃ stop ∈ answer.2.position, start < stop) ∧
      ∀ stage, probe.turn trie.units unit stage = none →
        ∃ position ∈ stage.position?, trie.units.size ≤ position + 3) ∧
    (∃ count ≤ 6 ^ (2 * trie.units.size) + 1,
      Turns (Listing.turn trie.units) ([], [.node 0 []]) count trie.entries) ∧
    ∀ found top rest, Listing.turn trie.units (found, top :: rest) = none →
      trie.units.size < top.reach := by
  refine ⟨fun probe unit => ⟨Probe.turns_feed _ _ _, ?_, ?_⟩, ?_, ?_⟩
  · intro answer fed
    cases place : probe.position with
    | none =>
        rw [Probe.feed, place] at fed
        cases fed
        exact Or.inl ⟨rfl, rfl⟩
    | some start =>
        obtain ⟨count, _, turns⟩ := probe.turns_feed trie.units unit
        rw [fed] at turns
        rcases Probe.advanced_of_turns turns (Probe.leads_stage place) with stopped | further
        · exact Or.inl stopped
        · exact Or.inr ⟨further.1, start, rfl, further.2⟩
  · exact fun stage => Probe.short_of_turn stage
  · obtain ⟨count, few, turns⟩ := Listing.turns_all trie.units [.node 0 []]
    refine ⟨count, Nat.le_trans few (Nat.le_of_eq ?_), turns⟩
    simp only [Listing.weight, Listing.height, Listing.worth_eq_pow, Nat.sub_zero, Nat.add_zero]
  · intro found top rest failed
    by_contra room
    obtain ⟨result, opened⟩ := Listing.open?_of_room top (Nat.not_lt.1 room)
    rw [Listing.turn, opened] at failed
    contradiction

/-- Both units of either branch lead to one place, so the listing comes there more than once. -/
theorem reading_ends_shared :
    let trie : PackedTrie := ⟨#[1, 97, 1, 98, 1, 97, 1, 98, 0x8001], by decide⟩
    trie.entries = some [([97, 97], 1), ([97, 98], 1), ([98, 97], 1), ([98, 98], 1)] ∧
      (∃ count ≤ 6 ^ 18 + 1,
        Turns (Listing.turn trie.units) ([], [.node 0 []]) count trie.entries) ∧
      (Probe.atRoot 0).feed trie.units 97 = some (.within, ⟨0, some 4, 0⟩) ∧
      (∃ count ≤ 23, Turns ((Probe.atRoot 0).turn trie.units 97) (Probe.atRoot 0).stage count
        (some (.within, ⟨0, some 4, 0⟩))) ∧
      (Standing.within = .outside ∧ (some 4 : Option Nat) = none ∨
        Standing.within ≠ .outside ∧ ∃ start ∈ some 0, ∃ stop ∈ some 4, start < stop) := by
  intro trie
  have ends := reading_ends trie
  have fed : (Probe.atRoot 0).feed trie.units 97 = some (.within, ⟨0, some 4, 0⟩) := by
    decide +kernel
  have turns := (ends.1 (Probe.atRoot 0) 97).1
  rw [fed] at turns
  exact ⟨by decide +kernel, ends.2.1, fed, turns, (ends.1 (Probe.atRoot 0) 97).2.1 _ fed⟩

end PackedTrie

end SentenceBreaks.Trie
