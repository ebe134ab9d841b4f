import SentenceBreaks.Trie.Codec
import SentenceBreaks.Trie.Probe
import Mathlib.Algebra.Group.Nat.Defs

/-! Readers undo writers inside any surrounding units. Each statement starts from a block that
stands at a position, with anything before and behind it, and gives what is read there and where
reading goes on. Numbers need to fit into 32 bits, since the widest form holds no more. -/

namespace SentenceBreaks.Trie.Codec

variable {units : Array UInt16} {position n kind : Nat} {closing : Bool} {rest : List UInt16}

theorem toNat_unit (n : Nat) : (unit n).toNat = n % 0x10000 := by
  unfold unit
  rw [UInt16.toNat_ofNat']

theorem toNat_unit_of_lt (small : n < 0x10000) : (unit n).toNat = n := by
  rw [toNat_unit, Nat.mod_eq_of_lt small]

theorem ofBits_bits (value : Int32) : ofBits (bits value) = value := by
  unfold ofBits bits
  rw [UInt32.ofNat_toNat]
  rfl

theorem bits_lt (value : Int32) : bits value < 2 ^ 32 := value.toUInt32.toNat_lt

/-- The unit at a position is the first of those from there on. -/
theorem getElem?_of_drop {lead : UInt16} (here : units.toList.drop position = lead :: rest) :
    units[position]? = some lead := by
  have first := congrArg List.head? here
  rw [List.head?_drop, List.head?_cons] at first
  rw [← first, Array.getElem?_toList]

theorem drop_of_append {block : List UInt16}
    (here : units.toList.drop position = block ++ rest) :
    units.toList.drop (position + block.length) = rest := by
  rw [← List.drop_drop, here, List.drop_left]

theorem drop_of_cons {lead : UInt16} (here : units.toList.drop position = lead :: rest) :
    units.toList.drop (position + 1) = rest :=
  @drop_of_append units position rest [lead] here

/-- The units of a block of up to three stand one behind the other. -/
theorem getElem?_second {first second : UInt16}
    (here : units.toList.drop position = first :: second :: rest) :
    units[position + 1]? = some second :=
  getElem?_of_drop (drop_of_cons here)

theorem getElem?_third {first second third : UInt16}
    (here : units.toList.drop position = first :: second :: third :: rest) :
    units[position + 2]? = some third :=
  getElem?_second (drop_of_cons here)

theorem readNumber_encodeNumber (fits : n < 2 ^ 32)
    (here : units.toList.drop position = encodeNumber n closing ++ rest) :
    readNumber units position = some (n, position + (encodeNumber n closing).length) := by
  have flag : (if closing then closingBit else 0) = 0 ∨
      (if closing then closingBit else 0) = 0x8000 := by
    cases closing
    · exact Or.inl rfl
    · exact Or.inr rfl
  unfold encodeNumber at here ⊢
  generalize (if closing then closingBit else 0) = bit at here flag ⊢
  dsimp only at here ⊢
  by_cases small : n ≤ 0x3fff
  · simp only [if_pos small, List.singleton_append, List.length_singleton] at here ⊢
    have lead := getElem?_of_drop here
    have stem : (unit (bit + n)).toNat % closingBit = n := by
      rw [toNat_unit]
      unfold closingBit
      omega
    simp only [readNumber, lead, Option.bind_eq_bind, Option.bind_some, stem]
    rw [if_pos (by omega)]
    rfl
  · by_cases middle : n ≤ 0x3ffeffff
    · simp only [if_neg small, if_pos middle, List.cons_append, List.nil_append,
        List.length_cons, List.length_nil] at here ⊢
      have lead := getElem?_of_drop here
      have low := getElem?_second here
      have stem : (unit (bit + 0x4000 + n / 0x10000)).toNat % closingBit =
          0x4000 + n / 0x10000 := by
        rw [toNat_unit]
        unfold closingBit
        omega
      simp only [readNumber, lead, low, Option.bind_eq_bind, Option.bind_some, stem]
      rw [if_neg (by omega), if_pos (by omega), toNat_unit]
      simp only [pure, Option.some.injEq, Prod.mk.injEq, and_true]
      omega
    · simp only [if_neg small, if_neg middle, List.cons_append, List.nil_append,
        List.length_cons, List.length_nil] at here ⊢
      have lead := getElem?_of_drop here
      have high := getElem?_second here
      have low := getElem?_third here
      have stem : (unit (bit + 0x7fff)).toNat % closingBit = 0x7fff := by
        rw [toNat_unit]
        unfold closingBit
        omega
      simp only [readNumber, lead, high, low, Option.bind_eq_bind, Option.bind_some, stem]
      rw [if_neg (by omega), if_neg (by omega), toNat_unit, toNat_unit]
      simp only [pure, Option.some.injEq, Prod.mk.injEq, and_true]
      omega

/-- The high bit of the lead tells whether a number closes a sequence. -/
theorem isClosing_encodeNumber (fits : n < 2 ^ 32)
    (here : units.toList.drop position = encodeNumber n closing ++ rest) :
    ∃ lead, units[position]? = some lead ∧ isClosing lead = closing := by
  unfold encodeNumber at here
  dsimp only at here
  by_cases small : n ≤ 0x3fff
  · simp only [if_pos small, List.singleton_append] at here
    refine ⟨_, getElem?_of_drop here, ?_⟩
    rw [isClosing, toNat_unit]
    cases closing <;> simp [closingBit] <;> omega
  · by_cases middle : n ≤ 0x3ffeffff
    · simp only [if_neg small, if_pos middle, List.cons_append, List.nil_append] at here
      refine ⟨_, getElem?_of_drop here, ?_⟩
      rw [isClosing, toNat_unit]
      cases closing <;> simp [closingBit] <;> omega
    · simp only [if_neg small, if_neg middle, List.cons_append, List.nil_append] at here
      refine ⟨_, getElem?_of_drop here, ?_⟩
      rw [isClosing, toNat_unit]
      cases closing <;> simp [closingBit]

theorem readJump_encodeJump (fits : n < 2 ^ 32)
    (here : units.toList.drop position = encodeJump n ++ rest) :
    readJump units position = some (n, position + (encodeJump n).length) := by
  unfold encodeJump at here ⊢
  by_cases small : n ≤ 0xfbff
  · simp only [if_pos small, List.singleton_append, List.length_singleton] at here ⊢
    have lead := getElem?_of_drop here
    simp only [readJump, lead, Option.bind_eq_bind, Option.bind_some,
      toNat_unit_of_lt (by omega : n < 0x10000)]
    rw [if_pos (by omega)]
    rfl
  · by_cases middle : n ≤ 0x3feffff
    · simp only [if_neg small, if_pos middle, List.cons_append, List.nil_append,
        List.length_cons, List.length_nil] at here ⊢
      have lead := getElem?_of_drop here
      have low := getElem?_second here
      have stem := toNat_unit_of_lt (by omega : 0xfc00 + n / 0x10000 < 0x10000)
      simp only [readJump, lead, low, Option.bind_eq_bind, Option.bind_some, stem]
      rw [if_neg (by omega), if_pos (by omega), toNat_unit]
      simp only [pure, Option.some.injEq, Prod.mk.injEq, and_true]
      omega
    · simp only [if_neg small, if_neg middle, List.cons_append, List.nil_append,
        List.length_cons, List.length_nil] at here ⊢
      have lead := getElem?_of_drop here
      have high := getElem?_second here
      have low := getElem?_third here
      have stem := toNat_unit_of_lt (by omega : 0xffff < 0x10000)
      simp only [readJump, lead, high, low, Option.bind_eq_bind, Option.bind_some, stem]
      rw [if_neg (by omega), if_neg (by omega), toNat_unit, toNat_unit]
      simp only [pure, Option.some.injEq, Prod.mk.injEq, and_true]
      omega

/-- Without a value the lead is the kind itself. -/
theorem lead_of_kind (low : kind < valueLead)
    (here : units.toList.drop position = encodeCarried none kind ++ rest) :
    units[position]? = some (unit kind) ∧ (unit kind).toNat = kind := by
  refine ⟨getElem?_of_drop here, toNat_unit_of_lt ?_⟩
  unfold valueLead at low
  omega

/-- With a value the kind is in the low six bits of the lead. -/
theorem lead_of_carried {value : Int32} (low : kind < valueLead)
    (here : units.toList.drop position = encodeCarried (some value) kind ++ rest) :
    ∃ lead, units[position]? = some lead ∧ valueLead ≤ lead.toNat ∧ isClosing lead = false ∧
      lead.toNat % valueLead = kind := by
  unfold encodeCarried at here
  unfold valueLead at low ⊢
  dsimp only at here
  have all := bits_lt value
  by_cases small : bits value ≤ 0xff
  · simp only [if_pos small, List.singleton_append] at here
    refine ⟨_, getElem?_of_drop here, ?_⟩
    rw [isClosing, toNat_unit_of_lt (by omega)]
    refine ⟨by omega, decide_eq_false ?_, by omega⟩
    unfold closingBit
    omega
  · by_cases middle : bits value ≤ 0xfdffff
    · simp only [if_neg small, if_pos middle, List.cons_append, List.nil_append] at here
      refine ⟨_, getElem?_of_drop here, ?_⟩
      rw [isClosing, toNat_unit_of_lt (by omega)]
      refine ⟨by omega, decide_eq_false ?_, by omega⟩
      unfold closingBit
      omega
    · simp only [if_neg small, if_neg middle, List.cons_append, List.nil_append] at here
      refine ⟨_, getElem?_of_drop here, ?_⟩
      rw [isClosing, toNat_unit_of_lt (by omega)]
      refine ⟨by omega, decide_eq_false ?_, by omega⟩
      unfold closingBit
      omega

theorem readCarried_encodeCarried {value : Int32} (low : kind < valueLead)
    (here : units.toList.drop position = encodeCarried (some value) kind ++ rest) :
    readCarried units position =
      some (bits value, position + (encodeCarried (some value) kind).length) := by
  unfold encodeCarried at here ⊢
  unfold valueLead at low
  dsimp only at here ⊢
  have all := bits_lt value
  by_cases small : bits value ≤ 0xff
  · simp only [if_pos small, List.singleton_append, List.length_singleton] at here ⊢
    have lead := getElem?_of_drop here
    have stem := toNat_unit_of_lt (by omega : (bits value + 1) * 0x40 + kind < 0x10000)
    simp only [readCarried, lead, Option.bind_eq_bind, Option.bind_some, stem]
    rw [if_pos (by omega)]
    simp only [pure, Option.some.injEq, Prod.mk.injEq, and_true]
    omega
  · by_cases middle : bits value ≤ 0xfdffff
    · simp only [if_neg small, if_pos middle, List.cons_append, List.nil_append,
        List.length_cons, List.length_nil] at here ⊢
      have lead := getElem?_of_drop here
      have behind := getElem?_second here
      have stem := toNat_unit_of_lt
        (by omega : 0x4040 + bits value / 0x10000 * 0x40 + kind < 0x10000)
      simp only [readCarried, lead, behind, Option.bind_eq_bind, Option.bind_some, stem]
      rw [if_neg (by omega), if_pos (by omega), toNat_unit]
      simp only [pure, Option.some.injEq, Prod.mk.injEq, and_true]
      omega
    · simp only [if_neg small, if_neg middle, List.cons_append, List.nil_append,
        List.length_cons, List.length_nil] at here ⊢
      have lead := getElem?_of_drop here
      have high := getElem?_second here
      have behind := getElem?_third here
      have stem := toNat_unit_of_lt (by omega : 0x7fc0 + kind < 0x10000)
      simp only [readCarried, lead, high, behind, Option.bind_eq_bind, Option.bind_some, stem]
      rw [if_neg (by omega), if_neg (by omega), toNat_unit, toNat_unit]
      simp only [pure, Option.some.injEq, Prod.mk.injEq, and_true]
      omega

end SentenceBreaks.Trie.Codec
