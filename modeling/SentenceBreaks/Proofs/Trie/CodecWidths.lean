import SentenceBreaks.Proofs.Trie.CodecRoundTrip

/-! The width of what is written. Whatever units a reader takes for a number, they are no fewer than
those of the block a writer makes of it. So each form is exact: its block is read back wherever it
stands, reading goes on right behind it, and no shorter block is read as the same. -/

namespace SentenceBreaks.Trie.Codec

/-- How a block stands for a value. -/
structure Decodes {α : Type} (read : Array UInt16 → Nat → Option (Nat × Nat)) (decode : Nat → α)
    (value : α) (block : List UInt16) : Prop where
  readsBack : ∀ front rest : List UInt16, ∃ n, decode n = value ∧
    read (front ++ block ++ rest).toArray front.length = some (n, (front ++ block).length)
  shortest : ∀ (units : Array UInt16) (position n after : Nat),
    read units position = some (n, after) → decode n = value → position + block.length ≤ after

/-- How a block leads over a distance, counted from behind it. -/
def Leaps (read : Array UInt16 → Nat → Option (Nat × Nat)) (distance : Nat)
    (block : List UInt16) : Prop :=
  ∀ front between target : List UInt16, between.length = distance →
    ∃ n after, read (front ++ block ++ (between ++ target)).toArray front.length =
        some (n, after) ∧
      (front ++ block ++ (between ++ target)).drop (after + n) = target

variable {units : Array UInt16} {position n after kind distance : Nat} {block : List UInt16}
  {read : Array UInt16 → Nat → Option (Nat × Nat)}

/-- A distance that is read back leads over just so many units. -/
theorem Decodes.leaps (decodes : Decodes read id distance block) : Leaps read distance block := by
  intro front between target length
  obtain ⟨n, rfl, found⟩ := decodes.readsBack front (between ++ target)
  refine ⟨n, _, found, ?_⟩
  change between.length = n at length
  rw [← List.append_assoc, ← length, ← List.length_append, List.drop_left]

end SentenceBreaks.Trie.Codec
