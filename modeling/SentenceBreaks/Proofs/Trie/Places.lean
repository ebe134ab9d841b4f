import SentenceBreaks.Trie.Packed
import SentenceBreaks.Proofs.Trie.CodecRoundTrip
import Mathlib.Logic.Relation

/-! The places in the units of a trie where a node or a branch stands, and what can be reached from
one of them: what follows it and what its jumps lead to. A unit is live if it belongs to a place
that is reached from the root. -/

namespace SentenceBreaks.Trie

/-- A node or a branch of some width, told by where its units begin. -/
inductive Place
  | node (position : Nat)
  | branch (width position : Nat)
deriving Repr, DecidableEq

namespace Place

def position : Place → Nat
  | .node position => position
  | .branch _ position => position

/-- Where the body of a node ends that has some kind, and what follows it. -/
def readBody (units : Array UInt16) (kind position : Nat) : Option (Nat × List Place) :=
  if Codec.runKind ≤ kind then
    let stop := position + (kind - Codec.runKind + 1)
    some (stop, [.node stop])
  else if kind = 0 then do
    let count ← units[position]?
    return (position + 1, [.branch (count.toNat + 1) (position + 1)])
  else some (position, [.branch (kind + 1) position])

/-- Where a list of edges ends, and the nodes that it leads to. -/
def readEdges (units : Array UInt16) : Nat → Nat → Option (Nat × List Place)
  | 0, position => some (position, [])
  | 1, position => some (position + 1, [.node (position + 1)])
  | width + 2, position => do
      let lead ← units[position + 1]?
      let (n, after) ← Codec.readNumber units (position + 1)
      let (stop, others) ← readEdges units (width + 1) after
      return (stop, if Codec.isClosing lead then others else .node (after + n) :: others)

/-- Where the units of a place end, and the places that it leads to. -/
def read? (units : Array UInt16) : Place → Option (Nat × List Place)
  | .node position => do
      let lead ← units[position]?
      if lead.toNat < Codec.valueLead then readBody units lead.toNat (position + 1)
      else if Codec.isClosing lead then
        let (_, after) ← Codec.readNumber units position
        return (after, [])
      else
        let (_, after) ← Codec.readCarried units position
        readBody units (lead.toNat % Codec.valueLead) after
  | .branch width position =>
      if Layout.listLimit < width then do
        let (distance, after) ← Codec.readJump units (position + 1)
        return (after, [.branch (width / 2) (after + distance), .branch (width - width / 2) after])
      else readEdges units width position

def Leads (units : Array UInt16) (place next : Place) : Prop :=
  ∃ stop places, place.read? units = some (stop, places) ∧ next ∈ places

/-- A unit is one of those in which a place is written. -/
def Owns (units : Array UInt16) (place : Place) (index : Nat) : Prop :=
  ∃ stop places, place.read? units = some (stop, places) ∧ place.position ≤ index ∧ index < stop

/-- A unit belongs to a place that can be reached from another one. -/
def Reaches (units : Array UInt16) (start : Place) (index : Nat) : Prop :=
  ∃ place, Relation.ReflTransGen (Leads units) start place ∧ Owns units place index

/-- A unit is in use: it belongs to a place that is reached from the root. -/
def Live (units : Array UInt16) (index : Nat) : Prop := Reaches units (.node 0) index

variable {units : Array UInt16} {start : Place} {stop index position : Nat} {places : List Place}

theorem reaches_of_read (read : start.read? units = some (stop, places))
    (low : start.position ≤ index)
    (onward : stop ≤ index → ∃ place ∈ places, Reaches units place index) :
    Reaches units start index := by
  by_cases own : index < stop
  · exact ⟨start, .refl, stop, places, read, low, own⟩
  · obtain ⟨next, member, place, path, owns⟩ := onward (Nat.not_lt.1 own)
    exact ⟨place, .head ⟨stop, places, read, member⟩ path, owns⟩

/-- A unit is not reached from some places that lead only to each other, if none of them owns it. -/
theorem not_reaches_of_closed (places : List Place) (member : start ∈ places)
    (closed : ∀ place ∈ places, ∀ read ∈ place.read? units, (∀ next ∈ read.2, next ∈ places) ∧
      ¬ (place.position ≤ index ∧ index < read.1)) : ¬ Reaches units start index := by
  rintro ⟨place, path, stop, _, read, low, high⟩
  have inside : place ∈ places := by
    clear read low
    induction path with
    | refl => exact member
    | tail _ leads ih =>
        obtain ⟨_, _, read, among⟩ := leads
        exact (closed _ ih _ read).1 _ among
  exact (closed place inside _ read).2 ⟨low, high⟩

open Layout Serial

variable {rest : List UInt16} {value : Option Int32} {kind : Nat}

theorem read_closing {value : Int32}
    (here : units.toList.drop position = closingUnits value ++ rest) :
    (Place.node position).read? units = some (position + (closingUnits value).length, []) := by
  obtain ⟨lead, found, closing⟩ := Codec.isClosing_encodeNumber (Codec.bits_lt value) here
  have high : ¬ lead.toNat < Codec.valueLead := by
    unfold Codec.isClosing Codec.closingBit at closing
    unfold Codec.valueLead
    have := of_decide_eq_true closing
    omega
  rw [read?, found, Option.bind_eq_bind, Option.bind_some, if_neg high, if_pos closing,
    Codec.readNumber_encodeNumber (Codec.bits_lt value) here]
  rfl

/-- Behind a lead with or without a value the body is read by the kind. -/
theorem read_carried (low : kind < Codec.valueLead)
    (here : units.toList.drop position = Codec.encodeCarried value kind ++ rest) :
    (Place.node position).read? units =
      readBody units kind (position + (Codec.encodeCarried value kind).length) := by
  cases value with
  | none =>
      obtain ⟨found, same⟩ := Codec.lead_of_kind low here
      rw [read?, found, Option.bind_eq_bind, Option.bind_some, same, if_pos low]
      rfl
  | some value =>
      obtain ⟨lead, found, high, open_, same⟩ := Codec.lead_of_carried low here
      rw [read?, found, Option.bind_eq_bind, Option.bind_some, if_neg (Nat.not_lt.2 high), open_,
        Codec.readCarried_encodeCarried low here, same]
      rfl

theorem read_run {run : List UInt16} (some_unit : run ≠ []) (most : run.length ≤ runLimit)
    (here : units.toList.drop position = runUnits value run ++ rest) :
    (Place.node position).read? units = some (position + (runUnits value run).length,
      [.node (position + (runUnits value run).length)]) := by
  have some_length := List.length_pos_iff.2 some_unit
  have limits : runLimit = 16 ∧ Codec.runKind = 48 ∧ Codec.valueLead = 64 := ⟨rfl, rfl, rfl⟩
  rw [runUnits, List.append_assoc] at here
  rw [read_carried (by omega) here, readBody, if_pos (Nat.le_add_right ..),
    Nat.add_sub_cancel_left, Nat.sub_add_cancel some_length, runUnits, List.length_append,
    Nat.add_assoc]

theorem read_fork {width : Nat} (least : 2 ≤ width) (most : width ≤ 0x10000)
    (here : units.toList.drop position = forkUnits value width ++ rest) :
    (Place.node position).read? units = some (position + (forkUnits value width).length,
      [.branch width (position + (forkUnits value width).length)]) := by
  have limits : Codec.runKind = 48 ∧ Codec.valueLead = 64 := ⟨rfl, rfl⟩
  unfold forkUnits at here ⊢
  by_cases narrow : width ≤ Codec.runKind
  · rw [if_pos narrow] at here ⊢
    rw [read_carried (by omega) here, readBody, if_neg (by omega), if_neg (by omega),
      Nat.sub_add_cancel (by omega)]
  · rw [if_neg narrow] at here ⊢
    rw [List.append_assoc, List.singleton_append] at here
    have count := Codec.getElem?_of_drop (Codec.drop_of_append here)
    rw [read_carried (by omega) here, readBody, if_neg (by omega), if_pos rfl, count,
      Option.bind_eq_bind, Option.bind_some, Codec.toNat_unit_of_lt (by omega),
      Nat.sub_add_cancel (by omega), List.length_append, List.length_singleton, Nat.add_assoc]
    rfl

theorem read_split {width distance : Nat} {unit : UInt16} (wide : listLimit < width)
    (fits : distance < 2 ^ 32)
    (here : units.toList.drop position = unit :: (Codec.encodeJump distance ++ rest)) :
    (Place.branch width position).read? units =
      some (position + (1 + (Codec.encodeJump distance).length),
        [.branch (width / 2) (position + (1 + (Codec.encodeJump distance).length) + distance),
          .branch (width - width / 2) (position + (1 + (Codec.encodeJump distance).length))]) := by
  rw [read?, if_pos wide, Codec.readJump_encodeJump fits (Codec.drop_of_cons here), ← Nat.add_assoc]
  rfl

theorem read_list {width : Nat} (narrow : width < listLimit) (position : Nat) :
    (Place.branch (width + 1) position).read? units = readEdges units (width + 1) position :=
  if_neg (Nat.not_lt.2 narrow)

/-- An edge with a jump leads on to a node, and then come the others. -/
theorem readEdges_jump {width distance : Nat} {unit : UInt16} {others : List Place}
    (fits : distance < 2 ^ 32)
    (here : units.toList.drop position = unit :: (Codec.encodeNumber distance false ++ rest))
    (read : readEdges units (width + 1)
      (position + (1 + (Codec.encodeNumber distance false).length)) = some (stop, others)) :
    readEdges units (width + 2) position = some (stop, .node
      (position + (1 + (Codec.encodeNumber distance false).length) + distance) :: others) := by
  have further := Codec.drop_of_cons here
  obtain ⟨lead, found, open_⟩ := Codec.isClosing_encodeNumber fits further
  rw [← Nat.add_assoc] at read ⊢
  simp only [readEdges, found, Codec.readNumber_encodeNumber fits further, read, open_,
    Option.bind_eq_bind, Option.bind_some]
  rfl

theorem readEdges_closing {width : Nat} {unit : UInt16} {value : Int32} {others : List Place}
    (here : units.toList.drop position = unit :: (closingUnits value ++ rest))
    (read : readEdges units (width + 1) (position + (1 + (closingUnits value).length)) =
      some (stop, others)) :
    readEdges units (width + 2) position = some (stop, others) := by
  have further := Codec.drop_of_cons here
  obtain ⟨lead, found, closing⟩ := Codec.isClosing_encodeNumber (Codec.bits_lt value) further
  rw [← Nat.add_assoc] at read
  have number := Codec.readNumber_encodeNumber (Codec.bits_lt value) further
  rw [closingUnits] at read
  simp only [readEdges, found, number, read, closing, Option.bind_eq_bind, Option.bind_some]
  rfl

end Place

end SentenceBreaks.Trie
