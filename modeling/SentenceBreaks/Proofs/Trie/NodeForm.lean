import SentenceBreaks.Proofs.Trie.SerialForm

/-! The form of a node in units, for whatever reads it. A node is a closing value or has a lead,
with or without a value, in front of its body. The kind in the lead tells a body: the units of a
run in front of another node, or a branch, whose width comes first if it is large. -/

namespace SentenceBreaks.Trie

open Layout

/-- The units behind a lead of some kind stand for longer sequences. -/
inductive BodyForm : Nat → List Entry → List UInt16 → Prop
  | run {τ : Type} {next : Layout τ .node} {run middle after : List UInt16} (some_unit : run ≠ [])
      (most : run.length ≤ runLimit) (spans : next.Spans middle after) (sound : next.Sound) :
      BodyForm (Codec.runKind + (run.length - 1)) (under run next.entries) (run ++ middle)
  | narrow {τ : Type} {next : Layout τ .branch} {middle after : List UInt16}
      (least : 2 ≤ next.width) (most : next.width ≤ Codec.runKind)
      (spans : next.Spans middle after) (sound : next.Sound) :
      BodyForm (next.width - 1) next.entries middle
  | wide {τ : Type} {next : Layout τ .branch} {middle after : List UInt16}
      (least : Codec.runKind < next.width) (most : next.width ≤ 0x10000)
      (spans : next.Spans middle after) (sound : next.Sound) :
      BodyForm 0 next.entries (Codec.unit (next.width - 1) :: middle)

/-- The units of a node that stands for some entries. -/
inductive NodeForm : List Entry → List UInt16 → Prop
  | closing {value : Int32} {after : List UInt16} :
      NodeForm [([], value)] (Serial.closingUnits value ++ after)
  | onward {value : Option Int32} {kind : Nat} {longer : List Entry} {tail : List UInt16}
      (body : BodyForm kind longer tail) :
      NodeForm (carried value ++ longer) (Codec.encodeCarried value kind ++ tail)

namespace BodyForm

variable {kind : Nat} {longer : List Entry} {tail : List UInt16}

theorem kind_lt (body : BodyForm kind longer tail) : kind < Codec.valueLead := by
  have limits : runLimit = 16 ∧ Codec.runKind = 48 ∧ Codec.valueLead = 64 := ⟨rfl, rfl, rfl⟩
  cases body with
  | run some_unit most => omega
  | narrow least most => omega
  | wide least most => omega

theorem ne_nil (body : BodyForm kind longer tail) : longer ≠ [] := by
  cases body with
  | run => exact under_ne_nil (node_entries_ne_nil _)
  | narrow => exact entries_ne_nil _ nofun
  | wide => exact entries_ne_nil _ nofun

theorem longer_ne_nil (body : BodyForm kind longer tail) : ∀ entry ∈ longer, entry.1 ≠ [] := by
  cases body with
  | run some_unit => exact ne_nil_of_mem_under some_unit
  | narrow => exact ne_nil_of_mem_entries _ nofun
  | wide => exact ne_nil_of_mem_entries _ nofun

end BodyForm

/-- A sound node that spans some units is written in one of the two ways. -/
theorem nodeForm_of_spans {τ : Type} {part : Layout τ .node} {tail after : List UInt16}
    (spans : part.Spans tail after) (sound : part.Sound) : NodeForm part.entries tail := by
  cases spans with
  | closing => exact .closing
  | run onward =>
      obtain ⟨some_unit, most, sound⟩ := sound
      rw [Serial.runUnits, List.append_assoc]
      exact .onward (.run some_unit most onward sound)
  | @fork _ value _ _ next onward =>
      obtain ⟨least, most, sound⟩ := sound
      unfold Serial.forkUnits
      by_cases small : next.width ≤ Codec.runKind
      · rw [if_pos small]
        exact .onward (.narrow least small onward sound)
      · rw [if_neg small, List.append_assoc]
        exact .onward (.wide (Nat.not_le.1 small) most onward sound)

end SentenceBreaks.Trie
