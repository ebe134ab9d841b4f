import SentenceBreaks.Trie.Serial
import SentenceBreaks.Proofs.Trie.LayoutEdges

/-! The size of a layout that is written with nothing shared. Each part then stands once for every
place that leads to it, so the length of a jump is the size of what stands between, and the size
follows the structure of the layout without any buffer. -/

namespace SentenceBreaks.Trie.Layout

variable {τ : Type} {p : Part}

mutual

/-- The number of units of a part with all below it. For edges it is that of the nodes they lead to,
without the units of the edges themselves. -/
def plainSize : {p : Part} → Layout τ p → Nat
  | _, .closing _ value => (Serial.closingUnits value).length
  | _, .run _ value units next => (Serial.runUnits value units).length + plainSize next
  | _, .fork _ value next => (Serial.forkUnits value next.width).length + plainSize next
  | _, .split _ _ less rest =>
      1 + (Codec.encodeJump (plainSize rest)).length + plainSize rest + plainSize less
  | _, .list _ lower _ last =>
      armsSize lower (1 + plainSize last) + 1 + plainSize last + plainSize lower
  | _, .listClosing _ lower _ value =>
      armsSize lower (1 + (Serial.closingUnits value).length) + 1 +
        (Serial.closingUnits value).length + plainSize lower
  | _, .done => 0
  | _, .edge _ target rest => plainSize target + plainSize rest
  | _, .edgeClosing _ _ rest => plainSize rest

/-- The number of units of edges themselves, when so many stand between them and the first node that
they lead to. -/
def armsSize : {p : Part} → Layout τ p → (ahead : Nat) → Nat
  | _, .closing _ _, _ => 0
  | _, .run _ _ _ _, _ => 0
  | _, .fork _ _ _, _ => 0
  | _, .split _ _ _ _, _ => 0
  | _, .list _ _ _ _, _ => 0
  | _, .listClosing _ _ _ _, _ => 0
  | _, .done, _ => 0
  | _, .edge _ target rest, ahead =>
      armsSize rest (ahead + plainSize target) + 1 + (Codec.encodeNumber
        (armsSize rest (ahead + plainSize target) + ahead) false).length
  | _, .edgeClosing _ value rest, ahead =>
      armsSize rest ahead + 1 + (Serial.closingUnits value).length

end

attribute [grind =] plainSize armsSize

theorem sizes_untag (part : Layout τ p) :
    part.untag.plainSize = part.plainSize ∧
      ∀ ahead, part.untag.armsSize ahead = part.armsSize ahead := by
  induction part <;> grind

theorem plainSize_untag (part : Layout τ p) : part.untag.plainSize = part.plainSize :=
  part.sizes_untag.1

theorem plainSize_pos (part : Layout τ p) (tagged : p ≠ .edges) : 0 < part.plainSize := by
  cases part with
  | closing tag value => exact List.length_pos_iff.2 (Serial.closingUnits_ne_nil value)
  | run tag value units next =>
      have lead := List.length_pos_iff.2 (Serial.runUnits_ne_nil value units)
      simp only [plainSize]
      omega
  | fork tag value next =>
      have lead := List.length_pos_iff.2 (Serial.forkUnits_ne_nil value next.width)
      simp only [plainSize]
      omega
  | split => simp only [plainSize]; omega
  | list => simp only [plainSize]; omega
  | listClosing => simp only [plainSize]; omega
  | done => contradiction
  | edge => contradiction
  | edgeClosing => contradiction

/-- A branch has a unit and something behind it. -/
theorem two_le_plainSize (part : Layout τ .branch) : 2 ≤ part.plainSize := by
  cases part with
  | split tag unit less rest =>
      have lower := less.plainSize_pos nofun
      simp only [plainSize]
      omega
  | list tag lower unit last =>
      have above := last.plainSize_pos nofun
      simp only [plainSize]
      omega
  | listClosing tag lower unit value =>
      have above := List.length_pos_iff.2 (Serial.closingUnits_ne_nil value)
      simp only [plainSize]
      omega

/-- A node that goes on has a lead, a unit at least, and something behind it. -/
theorem three_le_plainSize (part : Layout τ .node) (onward : part.closes = false)
    (sound : part.Sound) : 3 ≤ part.plainSize := by
  cases part with
  | closing => contradiction
  | run tag value units next =>
      have lead := List.length_pos_iff.2 (Codec.encodeCarried_ne_nil value
        (Codec.runKind + (units.length - 1)))
      have some_unit := List.length_pos_iff.2 sound.1
      have behind := next.plainSize_pos nofun
      simp only [plainSize, Serial.runUnits, List.length_append]
      omega
  | fork tag value next =>
      have lead := List.length_pos_iff.2 (Serial.forkUnits_ne_nil value next.width)
      have behind := next.two_le_plainSize
      simp only [plainSize]
      omega

end SentenceBreaks.Trie.Layout
