import SentenceBreaks.Proofs.Trie.CodecRoundTrip
import SentenceBreaks.Proofs.Trie.TailContents
import Mathlib.Data.List.Infix

/-! Runs of calls on one buffer. A call writes a block in front of what was written before and
answers how many units there are then. The calls alone tell what is written. The cells may move to a
larger array at any time, and no call reaches beyond them. -/

namespace SentenceBreaks.Trie.TailBuffer

/-- A call writes one unit, or several, or a number of a list, or a lead with the kind of its node
and perhaps a value, or a jump to where so many units had been written. -/
inductive Call
  | one (unit : UInt16)
  | several (units : List UInt16)
  | number (value : Int32) (closing : Bool)
  | carried (value : Option Int32) (kind : UInt16)
  | jump (target : Nat)

namespace Call

/-- The block that a call writes in front of so many units. -/
def block (filled : Nat) : Call → List UInt16
  | .one unit => [unit]
  | .several units => units
  | .number value closing => Codec.encodeNumber (Codec.bits value) closing
  | .carried none kind => [kind]
  | .carried (some value) kind => (Codec.encodeCarried (some value) 0).modifyHead (· ||| kind)
  | .jump target => Codec.encodeJump (filled - target)

/-- A jump leads to units that were written before. -/
def Backward (filled : Nat) : Call → Prop
  | .jump target => target ≤ filled
  | .one _ => True
  | .several _ => True
  | .number _ _ => True
  | .carried _ _ => True

instance (filled : Nat) : (call : Call) → Decidable (call.Backward filled)
  | .jump target => inferInstanceAs (Decidable (target ≤ filled))
  | .one _ => isTrue trivial
  | .several _ => isTrue trivial
  | .number _ _ => isTrue trivial
  | .carried _ _ => isTrue trivial

/-- A lead has its low bits free for the kind. -/
theorem or_unit (n : Nat) {kind : UInt16} (low : kind.toNat < Codec.valueLead) :
    Codec.unit (n * 0x40) ||| kind = Codec.unit (n * 0x40 + kind.toNat) := by
  have room : kind.toNat < 2 ^ 6 := low
  apply UInt16.toNat_inj.1
  rw [UInt16.toNat_or, Codec.toNat_unit, Codec.toNat_unit]
  calc
    n * 0x40 % 0x10000 ||| kind.toNat = 2 ^ 6 * (n % 0x400) ||| kind.toNat := by
      congr 1
      omega
    _ = 2 ^ 6 * (n % 0x400) + kind.toNat := (Nat.two_pow_add_eq_or_of_lt room _).symm
    _ = (n * 0x40 + kind.toNat) % 0x10000 := by omega

/-- With a kind of a node the block is that of the codec. -/
theorem block_carried {filled : Nat} (value : Option Int32) {kind : UInt16}
    (low : kind.toNat < Codec.valueLead) :
    block filled (.carried value kind) = Codec.encodeCarried value kind.toNat := by
  cases value with
  | none =>
      unfold block Codec.encodeCarried Codec.unit
      dsimp only
      rw [UInt16.ofNat_toNat]
  | some value =>
      unfold block Codec.encodeCarried
      dsimp only
      by_cases small : Codec.bits value ≤ 0xff
      · simp only [if_pos small, List.modifyHead_cons, Nat.add_zero, or_unit _ low]
      · by_cases middle : Codec.bits value ≤ 0xfdffff
        · have lead : 0x4040 + Codec.bits value / 0x10000 * 0x40 =
              (0x101 + Codec.bits value / 0x10000) * 0x40 := by omega
          simp only [if_neg small, if_pos middle, List.modifyHead_cons, Nat.add_zero, lead,
            or_unit _ low]
        · have lead : 0x7fc0 = 0x1ff * 0x40 := rfl
          simp only [if_neg small, if_neg middle, List.modifyHead_cons, Nat.add_zero, lead,
            or_unit _ low]

end Call

/-- The number of units after a call and the buffer after it; none if a jump leads forward. -/
def perform (call : Call) (buffer : TailBuffer) : Option (Nat × TailBuffer) :=
  if call.Backward buffer.filled then
    some ((buffer.write (call.block buffer.filled)).filled,
      buffer.write (call.block buffer.filled))
  else none

def run : List Call → TailBuffer → Option (List Nat × TailBuffer)
  | [], buffer => some ([], buffer)
  | call :: later, buffer => do
      let (answer, after) ← perform call buffer
      let (answers, last) ← run later after
      return (answer :: answers, last)

/-! What the calls tell. -/

/-- The blocks of some calls, the first one in front of so many units. -/
def blocks (filled : Nat) : List Call → List (List UInt16)
  | [] => []
  | call :: later =>
      call.block filled :: blocks (filled + (call.block filled).length) later

/-- All jumps lead to units that were written before. -/
def AllBackward (filled : Nat) : List Call → Prop
  | [] => True
  | call :: later =>
      call.Backward filled ∧ AllBackward (filled + (call.block filled).length) later

/-- How many units there are after each block. -/
def totals (filled : Nat) (blocks : List (List UInt16)) : List Nat :=
  blocks.inits.tail.map fun written => filled + written.flatten.length

/-- A block is put right in front of the units so far. The cells of all of them are there, and those
of the earlier units hold what they held before. -/
structure Extends (before after : TailBuffer) (block : List UInt16) : Prop where
  filled : after.filled = before.filled + block.length
  room : after.filled ≤ after.cells.size
  written : ∀ (place : Nat) (unit : UInt16), block[place]? = some unit →
    after.cells[after.cells.size - after.filled + place]? = some unit
  kept : ∀ place < before.filled, ∃ unit,
    before.cells[before.cells.size - before.filled + place]? = some unit ∧
      after.cells[after.cells.size - before.filled + place]? = some unit

section

variable {filled : Nat} {call : Call} {earlier later : List Call} {buffer other : TailBuffer}

theorem blocks_append (filled : Nat) (earlier later : List Call) :
    blocks filled (earlier ++ later) = blocks filled earlier ++
      blocks (filled + (blocks filled earlier).flatten.length) later := by
  induction earlier generalizing filled with
  | nil => rfl
  | cons call earlier ih =>
      rw [List.cons_append, blocks, ih, blocks, List.cons_append, List.flatten_cons,
        List.length_append, Nat.add_assoc]

theorem length_blocks (filled : Nat) (calls : List Call) :
    (blocks filled calls).length = calls.length := by
  induction calls generalizing filled with
  | nil => rfl
  | cons call later ih => rw [blocks, List.length_cons, ih, List.length_cons]

theorem allBackward_append (backward : AllBackward filled (earlier ++ later)) :
    AllBackward filled earlier ∧
      AllBackward (filled + (blocks filled earlier).flatten.length) later := by
  induction earlier generalizing filled with
  | nil => exact ⟨trivial, backward⟩
  | cons call earlier ih =>
      obtain ⟨own, rest⟩ := backward
      obtain ⟨front, back⟩ := ih rest
      refine ⟨⟨own, front⟩, ?_⟩
      rwa [blocks, List.flatten_cons, List.length_append, ← Nat.add_assoc]

theorem totals_cons (filled : Nat) (block : List UInt16) (later : List (List UInt16)) :
    totals filled (block :: later) =
      (filled + block.length) :: totals (filled + block.length) later := by
  have first : later.inits = [] :: later.inits.tail := by
    cases later <;> rfl
  unfold totals
  rw [List.inits_cons, List.tail_cons, first, List.map_cons, List.map_cons, List.map_map]
  congr 1
  · simp
  · apply List.map_congr_left
    intro written _
    simp [Nat.add_assoc]

theorem drop_totals (filled : Nat) (front back : List (List UInt16)) :
    (totals filled (front ++ back)).drop front.length =
      totals (filled + front.flatten.length) back := by
  induction front generalizing filled with
  | nil => rfl
  | cons block front ih =>
      rw [List.cons_append, totals_cons, List.length_cons, List.drop_succ_cons, ih,
        List.flatten_cons, List.length_append, Nat.add_assoc]

theorem getElem?_contents (buffer : TailBuffer) (place : Nat) :
    buffer.contents[place]? = buffer.cells[buffer.cells.size - buffer.filled + place]? := by
  rw [contents, List.getElem?_drop, Array.getElem?_toList]

theorem extends_write (buffer : TailBuffer) (block : List UInt16) :
    Extends buffer (buffer.write block) block := by
  have room := (buffer.write block).fits
  have filled := filled_write block buffer
  refine ⟨filled, room, ?_, ?_⟩
  · intro place unit found
    have inside : place < block.length := (List.getElem?_eq_some_iff.1 found).1
    rw [← getElem?_contents, contents_write, List.getElem?_append_left inside, found]
  · intro place inside
    have held : place < buffer.contents.length := by
      rw [length_contents]
      exact inside
    have further : (buffer.write block).cells.size - buffer.filled + place =
        (buffer.write block).cells.size - (buffer.write block).filled +
          (block.length + place) := by omega
    refine ⟨buffer.contents[place], ?_, ?_⟩
    · rw [← getElem?_contents, List.getElem?_eq_getElem held]
    · rw [further, ← getElem?_contents, contents_write,
        List.getElem?_append_right (Nat.le_add_right _ _), Nat.add_sub_cancel_left,
        List.getElem?_eq_getElem held]

theorem perform_of_backward (backward : call.Backward buffer.filled) :
    perform call buffer = some (buffer.filled + (call.block buffer.filled).length,
      buffer.write (call.block buffer.filled)) := by
  unfold perform
  rw [if_pos backward, filled_write]

/-- The induction is on the calls. Each one leaves a buffer on which the later ones do the same as
on any other with as many units. -/
theorem run_eq (calls : List Call) (buffer : TailBuffer)
    (backward : AllBackward buffer.filled calls) :
    ∃ last, run calls buffer = some (totals buffer.filled (blocks buffer.filled calls), last) ∧
      last.contents = (blocks buffer.filled calls).reverse.flatten ++ buffer.contents := by
  induction calls generalizing buffer with
  | nil => exact ⟨buffer, rfl, rfl⟩
  | cons call later ih =>
      obtain ⟨own, rest⟩ := backward
      rw [← filled_write] at rest
      obtain ⟨last, ran, holds⟩ := ih _ rest
      rw [filled_write] at ran holds
      refine ⟨last, ?_, ?_⟩
      · rw [run, perform_of_backward own]
        simp only [Option.bind_eq_bind, Option.bind_some, ran]
        rw [blocks, totals_cons]
        rfl
      · rw [holds, contents_write, blocks, List.reverse_cons, List.flatten_append]
        simp

theorem units_eq (same : buffer.contents = other.contents) : buffer.units = other.units := by
  apply Array.toList_inj.1
  rw [toList_units, toList_units, same]

end

/-- Whatever the first capacity, calls whose jumps all lead back are performed, and the units are
the blocks of the calls with the last one in front. Each call answers how many units were written up
to it. It puts its block in front of the units so far and keeps those, in cells that are all there.
If at any time another buffer with the same units is put in the place of the one at hand, in an
array of any size, the later calls answer the same, and the units are the same in the end. -/
theorem run_writes (capacity : Nat) (calls : List Call) (backward : AllBackward 0 calls) :
    ∃ answers last,
      run calls (withCapacity capacity) = some (answers, last) ∧
      last.units.toList = (blocks 0 calls).reverse.flatten ∧
      answers = (blocks 0 calls).inits.tail.map (fun written => written.flatten.length) ∧
      (∀ (earlier : List Call) (call : Call) (later : List Call),
        calls = earlier ++ call :: later → ∃ told before after,
          run earlier (withCapacity capacity) = some (told, before) ∧
          perform call before = some (after.filled, after) ∧
          Extends before after (call.block before.filled)) ∧
      ∀ earlier later : List Call, calls = earlier ++ later → ∀ other : TailBuffer,
        other.contents = (blocks 0 earlier).reverse.flatten → ∃ final,
          run later other = some (answers.drop earlier.length, final) ∧
          final.units = last.units := by
  obtain ⟨last, ran, holds⟩ := run_eq calls (withCapacity capacity) backward
  rw [filled_withCapacity] at ran holds
  rw [contents_withCapacity, List.append_nil] at holds
  refine ⟨_, last, ran, ?_, ?_, ?_, ?_⟩
  · rw [toList_units, holds]
  · simp only [totals, Nat.zero_add]
  · rintro earlier call later rfl
    obtain ⟨front, back⟩ := allBackward_append backward
    obtain ⟨before, started, held⟩ := run_eq earlier (withCapacity capacity) front
    have filled : before.filled = 0 + (blocks 0 earlier).flatten.length := by
      rw [← length_contents, held]
      simp
    have own : call.Backward before.filled := by
      rw [filled]
      exact back.1
    exact ⟨_, before, _, started, perform_of_backward own, extends_write before _⟩
  · rintro earlier later rfl other same
    obtain ⟨_, back⟩ := allBackward_append backward
    have filled : other.filled = 0 + (blocks 0 earlier).flatten.length := by
      rw [← length_contents, same]
      simp
    rw [← filled] at back
    obtain ⟨final, continued, ends⟩ := run_eq later other back
    refine ⟨final, ?_, units_eq ?_⟩
    · rw [continued, blocks_append, ← length_blocks 0 earlier, drop_totals, filled]
    · rw [ends, holds, same, blocks_append, filled, List.reverse_append, List.flatten_append]

/-- The array grows from two cells to four and then, in the middle of a block, to eight. -/
theorem run_writes_grown : ∃ answers last,
    run [.one 3, .one 2, .one 1, .several [7, 8], .jump 1, .carried (some 0x100) 0x31]
      (withCapacity 2) = some (answers, last) ∧
    last.units.toList = [0x4071, 0x100, 4, 7, 8, 1, 2, 3] ∧ answers = [1, 2, 3, 5, 6, 8] := by
  have backward : AllBackward 0
      [.one 3, .one 2, .one 1, .several [7, 8], .jump 1, .carried (some 0x100) 0x31] :=
    ⟨trivial, trivial, trivial, trivial, by decide, trivial, trivial⟩
  obtain ⟨answers, last, ran, held, told, _⟩ := run_writes 2 _ backward
  exact ⟨answers, last, ran, held.trans (by decide), told.trans (by decide)⟩

end SentenceBreaks.Trie.TailBuffer
