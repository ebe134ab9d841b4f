/-! Three ways to write a number below 2 ^ 32 in one, two or three units. The lead unit tells the
width: small numbers stand in the lead itself, larger ones have their high part there and sixteen
bits behind it, and the rest follow a fixed lead in full. Readers answer the number and the
position behind it, or none when the units end first. -/

namespace SentenceBreaks.Trie.Codec

def unit (n : Nat) : UInt16 := UInt16.ofNat n

/-- The least lead of a node with a value. A lead below it is the kind of a node. -/
def valueLead : Nat := 0x40

/-- The kinds from here on are those of runs; the kinds below are those of forks. -/
def runKind : Nat := 0x30

def bits (value : Int32) : Nat := value.toUInt32.toNat
def ofBits (n : Nat) : Int32 := (UInt32.ofNat n).toInt32

/-- The lead bit that tells a value closing a sequence from a value or distance in a list. -/
def closingBit : Nat := 0x8000

def isClosing (lead : UInt16) : Bool := closingBit ≤ lead.toNat

/-- The numbers of closing values and of branch lists; the lead leaves its high bit free. -/
def encodeNumber (n : Nat) (closing : Bool) : List UInt16 :=
  let flag := if closing then closingBit else 0
  if n ≤ 0x3fff then [unit (flag + n)]
  else if n ≤ 0x3ffeffff then [unit (flag + 0x4000 + n / 0x10000), unit n]
  else [unit (flag + 0x7fff), unit (n / 0x10000), unit n]

def readNumber (units : Array UInt16) (position : Nat) : Option (Nat × Nat) := do
  let lead ← units[position]?
  let stem := lead.toNat % closingBit
  if stem < 0x4000 then
    return (stem, position + 1)
  else if stem < 0x7fff then
    let low ← units[position + 1]?
    return ((stem - 0x4000) * 0x10000 + low.toNat, position + 2)
  else
    let high ← units[position + 1]?
    let low ← units[position + 2]?
    return (high.toNat * 0x10000 + low.toNat, position + 3)

/-- The units in front of a node that goes on. Without a value they are its kind; with one the kind
is in the low six bits of the lead. -/
def encodeCarried (value : Option Int32) (kind : Nat) : List UInt16 :=
  match value with
  | none => [unit kind]
  | some value =>
      let n := bits value
      if n ≤ 0xff then [unit ((n + 1) * 0x40 + kind)]
      else if n ≤ 0xfdffff then [unit (0x4040 + n / 0x10000 * 0x40 + kind), unit n]
      else [unit (0x7fc0 + kind), unit (n / 0x10000), unit n]

def readCarried (units : Array UInt16) (position : Nat) : Option (Nat × Nat) := do
  let lead ← units[position]?
  let stem := lead.toNat / 0x40
  if stem < 0x101 then
    return (stem - 1, position + 1)
  else if stem < 0x1ff then
    let low ← units[position + 1]?
    return ((stem - 0x101) * 0x10000 + low.toNat, position + 2)
  else
    let high ← units[position + 1]?
    let low ← units[position + 2]?
    return (high.toNat * 0x10000 + low.toNat, position + 3)

/-- The distance from behind a split to its lower half. -/
def encodeJump (n : Nat) : List UInt16 :=
  if n ≤ 0xfbff then [unit n]
  else if n ≤ 0x3feffff then [unit (0xfc00 + n / 0x10000), unit n]
  else [unit 0xffff, unit (n / 0x10000), unit n]

def readJump (units : Array UInt16) (position : Nat) : Option (Nat × Nat) := do
  let lead ← units[position]?
  if lead.toNat < 0xfc00 then
    return (lead.toNat, position + 1)
  else if lead.toNat < 0xffff then
    let low ← units[position + 1]?
    return ((lead.toNat - 0xfc00) * 0x10000 + low.toNat, position + 2)
  else
    let high ← units[position + 1]?
    let low ← units[position + 2]?
    return (high.toNat * 0x10000 + low.toNat, position + 3)

theorem encodeNumber_ne_nil (n : Nat) (closing : Bool) : encodeNumber n closing ≠ [] := by
  unfold encodeNumber
  dsimp only
  by_cases small : n ≤ 0x3fff
  · simp [small]
  · by_cases middle : n ≤ 0x3ffeffff <;> simp [small, middle]

theorem length_encodeNumber (n : Nat) (closing : Bool) :
    (encodeNumber n closing).length =
      if n ≤ 0x3fff then 1 else if n ≤ 0x3ffeffff then 2 else 3 := by
  unfold encodeNumber
  dsimp only
  by_cases small : n ≤ 0x3fff
  · simp [small]
  · by_cases middle : n ≤ 0x3ffeffff <;> simp [small, middle]

theorem length_encodeJump (n : Nat) :
    (encodeJump n).length = if n ≤ 0xfbff then 1 else if n ≤ 0x3feffff then 2 else 3 := by
  unfold encodeJump
  by_cases small : n ≤ 0xfbff
  · simp [small]
  · by_cases middle : n ≤ 0x3feffff <;> simp [small, middle]

theorem encodeJump_ne_nil (n : Nat) : encodeJump n ≠ [] := by
  unfold encodeJump
  by_cases small : n ≤ 0xfbff
  · simp [small]
  · by_cases middle : n ≤ 0x3feffff <;> simp [small, middle]

theorem length_encodeNumber_le_two {n : Nat} (room : n ≤ 0x3ffeffff) (closing : Bool) :
    (encodeNumber n closing).length ≤ 2 := by
  rw [length_encodeNumber]
  grind

theorem length_encodeJump_le_two {n : Nat} (room : n ≤ 0x3feffff) : (encodeJump n).length ≤ 2 := by
  rw [length_encodeJump]
  grind

/-- A longer jump takes no fewer units. -/
theorem length_encodeJump_mono {n more : Nat} (le : n ≤ more) :
    (encodeJump n).length ≤ (encodeJump more).length := by
  rw [length_encodeJump, length_encodeJump]
  grind

theorem encodeCarried_ne_nil (value : Option Int32) (kind : Nat) :
    encodeCarried value kind ≠ [] := by
  unfold encodeCarried
  split
  · simp
  · dsimp only
    split
    · simp
    · split <;> simp

theorem lt_of_getElem? {units : Array UInt16} {position : Nat} {lead : UInt16}
    (found : units[position]? = some lead) : position < units.size :=
  (Array.getElem?_eq_some_iff.1 found).1

/-- What all readers do: the lead tells whether one, two or three units are read. -/
def readWide (short middle : UInt16 → Prop) [DecidablePred short] [DecidablePred middle]
    (one : UInt16 → Nat) (two three : UInt16 → UInt16 → Nat) (units : Array UInt16)
    (position : Nat) : Option (Nat × Nat) := do
  let lead ← units[position]?
  if short lead then return (one lead, position + 1)
  else if middle lead then
    let low ← units[position + 1]?
    return (two lead low, position + 2)
  else
    let high ← units[position + 1]?
    let low ← units[position + 2]?
    return (three high low, position + 3)

section

variable {units : Array UInt16} {position n after : Nat}

/-- A number that was read lies inside the units, and the position behind it is further on. -/
theorem readWide_advances {short middle : UInt16 → Prop} [DecidablePred short]
    [DecidablePred middle] {one : UInt16 → Nat} {two three : UInt16 → UInt16 → Nat}
    (read : readWide short middle one two three units position = some (n, after)) :
    position < units.size ∧ position < after := by
  obtain ⟨lead, found, read⟩ := Option.bind_eq_some_iff.1 read
  refine ⟨lt_of_getElem? found, ?_⟩
  split at read
  · cases read
    exact Nat.lt_succ_self position
  · split at read
    · obtain ⟨low, _, read⟩ := Option.bind_eq_some_iff.1 read
      cases read
      omega
    · obtain ⟨high, _, read⟩ := Option.bind_eq_some_iff.1 read
      obtain ⟨low, _, read⟩ := Option.bind_eq_some_iff.1 read
      cases read
      omega

theorem readNumber_advances (read : readNumber units position = some (n, after)) :
    position < units.size ∧ position < after := readWide_advances read

theorem readCarried_advances (read : readCarried units position = some (n, after)) :
    position < units.size ∧ position < after := readWide_advances read

theorem readJump_advances (read : readJump units position = some (n, after)) :
    position < units.size ∧ position < after := readWide_advances read

end

end SentenceBreaks.Trie.Codec
