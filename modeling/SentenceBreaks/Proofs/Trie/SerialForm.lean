import SentenceBreaks.Trie.Serial
import SentenceBreaks.Proofs.Trie.CodecRoundTrip
import SentenceBreaks.Proofs.Trie.TailContents
import SentenceBreaks.Proofs.Trie.RankOrder

/-! Units that are the serial form of a layout. A part spans the units from one place on when its
own stand there and lead to its children: the last one follows without a jump, the others are found
as many units further on as the jump says. Edges also tell what follows behind them. -/

namespace SentenceBreaks.Trie

namespace Layout

/-- The units from the first place to the second one are those of a part and of what follows it
without a jump. -/
inductive Spans {τ : Type} : {p : Part} → Layout τ p → List UInt16 → List UInt16 → Prop
  | closing {tag : τ} {value : Int32} {after : List UInt16} :
      Spans (.closing tag value) (Serial.closingUnits value ++ after) after
  | run {tag : τ} {value : Option Int32} {units middle after : List UInt16}
      {next : Layout τ .node} (onward : Spans next middle after) :
      Spans (.run tag value units next) (Serial.runUnits value units ++ middle) after
  | fork {tag : τ} {value : Option Int32} {middle after : List UInt16}
      {next : Layout τ .branch} (onward : Spans next middle after) :
      Spans (.fork tag value next) (Serial.forkUnits value next.width ++ middle) after
  | split {tag : τ} {unit : UInt16} {less rest : Layout τ .branch}
      {middle after beyond : List UInt16} {distance : Nat} (fits : distance < 2 ^ 32)
      (upper : Spans rest middle after) (lower : Spans less (middle.drop distance) beyond) :
      Spans (.split tag unit less rest) (unit :: (Codec.encodeJump distance ++ middle)) after
  | list {tag : τ} {lower : Layout τ .edges} {unit : UInt16} {last : Layout τ .node}
      {tail middle after : List UInt16} (arms : Spans lower tail (unit :: middle))
      (onward : Spans last middle after) : Spans (.list tag lower unit last) tail after
  | listClosing {tag : τ} {lower : Layout τ .edges} {unit : UInt16} {value : Int32}
      {tail after : List UInt16}
      (arms : Spans lower tail (unit :: (Serial.closingUnits value ++ after))) :
      Spans (.listClosing tag lower unit value) tail after
  | done {after : List UInt16} : Spans .done after after
  | edge {unit : UInt16} {target : Layout τ .node} {rest : Layout τ .edges}
      {middle after beyond : List UInt16} {distance : Nat} (fits : distance < 2 ^ 32)
      (others : Spans rest middle after) (onward : Spans target (middle.drop distance) beyond) :
      Spans (.edge unit target rest) (unit :: (Codec.encodeNumber distance false ++ middle)) after
  | edgeClosing {unit : UInt16} {value : Int32} {rest : Layout τ .edges}
      {middle after : List UInt16} (others : Spans rest middle after) :
      Spans (.edgeClosing unit value rest) (unit :: (Serial.closingUnits value ++ middle)) after

end Layout

/-- A node or a branch spans units from a place on. -/
def Tagged.Spans {τ : Type} (part : Tagged τ) (tail : List UInt16) : Prop :=
  match part with
  | .node part => ∃ after, part.Spans tail after
  | .branch part => ∃ after, part.Spans tail after

namespace Serial

variable {before middle after serial : Serial} {tag stop : Nat}

/-- The units from a place on that is told by how many there are to the end. -/
def tail (stop : Nat) (serial : Serial) : List UInt16 :=
  serial.buffer.contents.drop (serial.buffer.filled - stop)

def Present (tag : Nat) (serial : Serial) : Prop := ∃ stop, serial.ends[tag]? = some stop

/-- What writing keeps: the units so far stay behind the new ones, and no part is lost. -/
structure Onward (before after : Serial) : Prop where
  longer : ∃ block, after.buffer.contents = block ++ before.buffer.contents
  kept : ∀ tag, Present tag before → Present tag after

theorem Onward.refl : Onward serial serial := ⟨⟨[], rfl⟩, fun _ present => present⟩

theorem Onward.trans (first : Onward before middle) (second : Onward middle after) :
    Onward before after := by
  obtain ⟨block, longer⟩ := first.longer
  obtain ⟨more, further⟩ := second.longer
  refine ⟨⟨more ++ block, ?_⟩, fun tag present => second.kept tag (first.kept tag present)⟩
  rw [further, longer, List.append_assoc]

theorem Onward.filled_le (onward : Onward before after) :
    before.buffer.filled ≤ after.buffer.filled := by
  obtain ⟨block, longer⟩ := onward.longer
  rw [← TailBuffer.length_contents, ← TailBuffer.length_contents, longer, List.length_append]
  exact Nat.le_add_left _ _

/-- Places are counted from the end, so they stay where they are. -/
theorem Onward.tail_eq (onward : Onward before after) (inside : stop ≤ before.buffer.filled) :
    after.tail stop = before.tail stop := by
  obtain ⟨block, longer⟩ := onward.longer
  have length := congrArg List.length longer
  rw [List.length_append, TailBuffer.length_contents, TailBuffer.length_contents] at length
  have places : after.buffer.filled - stop = block.length + (before.buffer.filled - stop) := by
    omega
  rw [tail, tail, longer, places, ← List.drop_drop, List.drop_left]

theorem filled_write (block : List UInt16) (serial : Serial) :
    (serial.write block).buffer.filled = serial.buffer.filled + block.length := rfl

theorem contents_write (block : List UInt16) (serial : Serial) :
    (serial.write block).buffer.contents = block ++ serial.buffer.contents :=
  TailBuffer.contents_write block _

theorem onward_write (block : List UInt16) : Onward serial (serial.write block) :=
  ⟨⟨block, contents_write block _⟩, fun _ present => present⟩

theorem onward_finish (tag : Nat) : Onward serial (serial.finish tag) := by
  refine ⟨⟨[], rfl⟩, fun other present => ?_⟩
  unfold Present finish
  dsimp only
  rw [Std.HashMap.getElem?_insert]
  split
  · exact ⟨_, rfl⟩
  · exact present

end Serial

end SentenceBreaks.Trie
