/-! The UTF-16 form of text. A character below 0x10000 is one unit; any other is a high surrogate
followed by a low one. -/

namespace SentenceBreaks.Text.Utf16

def high (c : Char) : UInt16 := UInt16.ofNat (0xd800 + (c.toNat - 0x10000) / 0x400)
def low (c : Char) : UInt16 := UInt16.ofNat (0xdc00 + (c.toNat - 0x10000) % 0x400)

def units (c : Char) : List UInt16 :=
  if c.toNat < 0x10000 then [UInt16.ofNat c.toNat] else [high c, low c]

def ofChars (text : List Char) : List UInt16 := text.flatMap units

def ofString (text : String) : List UInt16 := ofChars text.toList

theorem ofChars_cons (c : Char) (text : List Char) :
    ofChars (c :: text) = units c ++ ofChars text := rfl

theorem units_ne_nil (c : Char) : units c ≠ [] := by
  unfold units
  split <;> simp

theorem ofChars_append (first second : List Char) :
    ofChars (first ++ second) = ofChars first ++ ofChars second := List.flatMap_append

/-- No character is a surrogate. -/
theorem toNat_valid (c : Char) : c.toNat < 0xd800 ∨ 0xdfff < c.toNat ∧ c.toNat < 0x110000 :=
  c.valid

theorem toNat_high (c : Char) : (high c).toNat = 0xd800 + (c.toNat - 0x10000) / 0x400 := by
  have valid := toNat_valid c
  unfold high
  rw [UInt16.toNat_ofNat_of_lt']
  simp only [UInt16.size]
  omega

theorem toNat_low (c : Char) : (low c).toNat = 0xdc00 + (c.toNat - 0x10000) % 0x400 := by
  unfold low
  rw [UInt16.toNat_ofNat_of_lt']
  simp only [UInt16.size]
  omega

theorem toNat_basic {c : Char} (basic : c.toNat < 0x10000) :
    (UInt16.ofNat c.toNat).toNat = c.toNat := UInt16.toNat_ofNat_of_lt' basic

/-- The units of a character tell it, whatever follows them. -/
theorem units_append_inj {c d : Char} {rest others : List UInt16}
    (same : units c ++ rest = units d ++ others) : c = d ∧ rest = others := by
  have c_valid := toNat_valid c
  have d_valid := toNat_valid d
  have c_high := toNat_high c
  have d_high := toNat_high d
  unfold units at same
  split at same
  next c_basic =>
    have c_unit := toNat_basic c_basic
    split at same
    next d_basic =>
      obtain ⟨units, rests⟩ := List.cons.inj same
      have numbers := toNat_basic d_basic
      rw [← units, c_unit] at numbers
      exact ⟨Char.toNat_inj.1 numbers, rests⟩
    next =>
      have units := congrArg UInt16.toNat (List.cons.inj same).1
      omega
  next c_wide =>
    split at same
    next d_basic =>
      have d_unit := toNat_basic d_basic
      have units := congrArg UInt16.toNat (List.cons.inj same).1
      omega
    next =>
      obtain ⟨highs, rest_same⟩ := List.cons.inj same
      obtain ⟨lows, rests⟩ := List.cons.inj rest_same
      have c_low := toNat_low c
      have d_low := toNat_low d
      rw [← highs] at d_high
      rw [← lows] at d_low
      refine ⟨Char.toNat_inj.1 ?_, rests⟩
      omega

theorem ofChars_injective {text other : List Char} (same : ofChars text = ofChars other) :
    text = other := by
  induction text generalizing other with
  | nil =>
      cases other with
      | nil => rfl
      | cons d other => exact absurd (List.append_eq_nil_iff.1 same.symm).1 (units_ne_nil d)
  | cons c text ih =>
      cases other with
      | nil => exact absurd (List.append_eq_nil_iff.1 same).1 (units_ne_nil c)
      | cons d other =>
          obtain ⟨rfl, rests⟩ := units_append_inj same
          rw [ih rests]

/-- A sequence of units can only go on between characters. -/
theorem ofChars_prefix_iff {text other : List Char} :
    ofChars text <+: ofChars other ↔ text <+: other := by
  constructor
  · intro shorter
    induction text generalizing other with
    | nil => exact List.nil_prefix
    | cons c text ih =>
        obtain ⟨rest, same⟩ := shorter
        rw [ofChars_cons, List.append_assoc] at same
        cases other with
        | nil => exact absurd (List.append_eq_nil_iff.1 same).1 (units_ne_nil c)
        | cons d other =>
            obtain ⟨rfl, rests⟩ := units_append_inj same
            exact List.cons_prefix_cons.2 ⟨rfl, ih ⟨rest, rests⟩⟩
  · rintro ⟨rest, rfl⟩
    rw [ofChars_append]
    exact List.prefix_append ..

end SentenceBreaks.Text.Utf16
