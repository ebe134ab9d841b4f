import SentenceBreaks.Abbreviation.Source
import SentenceBreaks.Proofs.Abbreviation.IndexEntries
import SentenceBreaks.Proofs.Trie.UnsharedSize

/-! The keys in the tries of a sound profile. Its abbreviations are not blank, and neither is its
separator, so what is cut off an abbreviation at its first separator is not blank either. Whatever
the tries hold, in reverse or not, has a character that is no white space. -/

namespace SentenceBreaks

open Text Trie

namespace Profile

variable {profile : Profile} {text : List Char}

end Profile

namespace Abbreviations

end Abbreviations

namespace AbbreviationIndex

open Abbreviations

/-- The units of a text with a character that is no white space. -/
def Worded (key : List UInt16) : Prop :=
  ∃ text, key = Utf16.ofChars text ∧ ∃ c ∈ text, Text.isBlank c = false

variable {separator : Char} {kept : Set (List Char)} {row : Entry} {rows : Set Entry}
  {key : List UInt16} {wanted : List UInt16 → Prop} {stored : Option PackedTrie}
  {trie : PackedTrie}

/-! Which keys are worded. -/

theorem Worded.ne_replicate (worded : Worded key) (count : Nat) :
    key ≠ List.replicate count 32 := by
  obtain ⟨text, rfl, c, member, visible⟩ := worded
  intro spaces
  have same : Utf16.ofChars text = Utf16.ofChars (List.replicate count ' ') := by
    rw [spaces, Utf16.ofChars, List.flatMap_replicate]
    simp [Utf16.units]
  rw [Utf16.ofChars_injective same] at member
  obtain rfl := List.eq_of_mem_replicate member
  contradiction

theorem Worded.ne_nil (worded : Worded key) : key ≠ [] := worded.ne_replicate 0

end AbbreviationIndex

end SentenceBreaks
