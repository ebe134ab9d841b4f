import SentenceBreaks.Trie.Sharing
import SentenceBreaks.Trie.Serial
import SentenceBreaks.Trie.Probe
import SentenceBreaks.Trie.Listing

/-! A trie in its serial form, an array of 16-bit units with the root at the start. Any units will
do, but only those written for some entries are sure to be readable. -/

namespace SentenceBreaks.Trie

structure PackedTrie where
  units : Array UInt16
  nonempty : 0 < units.size
deriving DecidableEq

namespace Serial

theorem nonempty_write (block : List UInt16) (serial : Serial) (some_unit : block ≠ []) :
    0 < (serial.write block).buffer.filled := by
  have positive := List.length_pos_iff.2 some_unit
  simp only [write, TailBuffer.filled_write]
  omega

theorem nonempty_writePart (ranks : Ranks) (root : Layout Nat .node) (serial : Serial) :
    0 < (writePart ranks root none serial).buffer.filled := by
  cases root with
  | closing tag value => exact nonempty_write _ _ (closingUnits_ne_nil value)
  | run tag value units next => exact nonempty_write _ _ (runUnits_ne_nil value units)
  | fork tag value next => exact nonempty_write _ _ (forkUnits_ne_nil value next.width)

end Serial

namespace PackedTrie

def ofUnits? (units : Array UInt16) : Option PackedTrie :=
  if nonempty : 0 < units.size then some ⟨units, nonempty⟩ else none

/-- Room for the units of all sequences, and for a small trie in any case. -/
def capacity (entries : List Entry) : Nat :=
  max 1024 (entries.foldl (fun total (sequence, _) => total + sequence.length) 0)

/-- The numbered layout of ascending entries. -/
def layout (sharing : Sharing) (entries : List Entry) : Layout Nat .node :=
  (sharing.number (Layout.ofEntries entries) ⟨∅, 0⟩).1

def ofEntries (sharing : Sharing) (entries : List Entry) : PackedTrie where
  units := (Serial.ofLayout (capacity entries) (layout sharing entries)).buffer.units
  nonempty := by
    have filled := Serial.nonempty_writePart (Ranks.ofLayout (layout sharing entries))
      (layout sharing entries) ⟨.withCapacity (capacity entries), ∅⟩
    have fits := (Serial.ofLayout (capacity entries) (layout sharing entries)).buffer.fits
    unfold Serial.ofLayout at fits ⊢
    simp only [TailBuffer.units, Array.size_extract]
    omega

/-- The standing of the empty sequence. -/
def standing (trie : PackedTrie) : Option Standing := (Probe.atRoot 0).standing trie.units

/-- The value of a sequence; none within if it is not stored. -/
def lookup (trie : PackedTrie) (sequence : List UInt16) : Option (Option Int32) :=
  Probe.lookup trie.units sequence

def entries (trie : PackedTrie) : Option (List Entry) := Listing.all trie.units [.node 0 []]

def firstEntries (count : Nat) (trie : PackedTrie) : Option (List Entry) :=
  Listing.take trie.units count [.node 0 []]

end PackedTrie

end SentenceBreaks.Trie
