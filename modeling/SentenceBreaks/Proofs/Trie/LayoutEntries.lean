import SentenceBreaks.Trie.Layout
import Mathlib.Data.List.Basic

/-! The entries that a layout stands for, read off its structure, and the layouts that can be told
apart from their units. A sound layout has runs of one to sixteen units and branches as wide as
their forks say, in which every unit leads to one child only. -/

namespace SentenceBreaks.Trie

theorem Part.node_ne_edges : Part.node ≠ .edges := nofun

theorem Part.branch_ne_edges : Part.branch ≠ .edges := nofun

/-- Entries behind some units. -/
def under (units : List UInt16) (entries : List Entry) : List Entry :=
  entries.map fun entry => (units ++ entry.1, entry.2)

/-- The entry of the sequence that ends at a node, if it carries a value. -/
def carried (value : Option Int32) : List Entry := value.toList.map fun value => ([], value)

/-- What is left of some entries behind a unit. -/
def behind (unit : UInt16) (entries : List Entry) : List Entry :=
  entries.filterMap fun
    | (first :: sequence, value) => if first = unit then some (sequence, value) else none
    | ([], _) => none

section Behind

variable {unit other : UInt16} {units : List UInt16} {entries more : List Entry}

@[simp] theorem under_nil (entries : List Entry) : under [] entries = entries := by
  simp [under]

@[simp] theorem under_under (first second : List UInt16) (entries : List Entry) :
    under first (under second entries) = under (first ++ second) entries := by
  simp [under, Function.comp_def]

theorem under_append (units : List UInt16) (entries more : List Entry) :
    under units (entries ++ more) = under units entries ++ under units more :=
  List.map_append

theorem under_ne_nil (some_entry : entries ≠ []) : under units entries ≠ [] := by
  simpa [under] using some_entry

theorem ne_nil_of_mem_under (some_unit : units ≠ []) :
    ∀ entry ∈ under units entries, entry.1 ≠ [] := by
  intro entry member
  obtain ⟨inside, _, rfl⟩ := List.mem_map.1 member
  exact List.append_ne_nil_of_left_ne_nil some_unit _

theorem behind_append (unit : UInt16) (entries more : List Entry) :
    behind unit (entries ++ more) = behind unit entries ++ behind unit more :=
  List.filterMap_append

@[simp] theorem behind_carried (unit : UInt16) (value : Option Int32) :
    behind unit (carried value) = [] := by
  cases value <;> rfl

@[simp] theorem behind_under_same (unit : UInt16) (units : List UInt16) (entries : List Entry) :
    behind unit (under (unit :: units) entries) = under units entries := by
  simp [behind, under, List.filterMap_map]

theorem behind_under_of_ne (different : other ≠ unit) :
    behind unit (under (other :: units) entries) = [] := by
  simp [behind, under, List.filterMap_map, different]

end Behind

namespace Layout

variable {τ : Type} {p : Part}

def entries : {p : Part} → Layout τ p → List Entry
  | _, .closing _ value => [([], value)]
  | _, .run _ value units next => carried value ++ under units (entries next)
  | _, .fork _ value next => carried value ++ entries next
  | _, .split _ _ less rest => entries less ++ entries rest
  | _, .list _ lower unit last => entries lower ++ under [unit] (entries last)
  | _, .listClosing _ lower unit value => entries lower ++ [([unit], value)]
  | _, .done => []
  | _, .edge unit target rest => under [unit] (entries target) ++ entries rest
  | _, .edgeClosing unit value rest => ([unit], value) :: entries rest

/-- The units that a branch or a list of edges tells apart. -/
def starts : {p : Part} → Layout τ p → List UInt16
  | _, .closing _ _ => []
  | _, .run _ _ _ _ => []
  | _, .fork _ _ _ => []
  | _, .split _ _ less rest => starts less ++ starts rest
  | _, .list _ lower unit _ => starts lower ++ [unit]
  | _, .listClosing _ lower unit _ => starts lower ++ [unit]
  | _, .done => []
  | _, .edge unit _ rest => unit :: starts rest
  | _, .edgeClosing unit _ rest => unit :: starts rest

attribute [grind =] entries starts

theorem length_starts (part : Layout τ p) : part.starts.length = part.width := by
  induction part <;> grind

/-- The conditions under which the units of a layout can be read back. -/
def Sound : {p : Part} → Layout τ p → Prop
  | _, .closing _ _ => True
  | _, .run _ _ units next => units ≠ [] ∧ units.length ≤ runLimit ∧ Sound next
  | _, .fork _ _ next => 2 ≤ width next ∧ width next ≤ 0x10000 ∧ Sound next
  | _, .split _ unit less rest =>
      listLimit < width less + width rest ∧ width less = (width less + width rest) / 2 ∧
        (∀ first ∈ starts less, first < unit) ∧ (∀ first ∈ starts rest, ¬ first < unit) ∧
        Sound less ∧ Sound rest
  | _, .list _ lower unit last =>
      width lower < listLimit ∧ unit ∉ starts lower ∧ Sound lower ∧ Sound last
  | _, .listClosing _ lower unit _ =>
      width lower < listLimit ∧ unit ∉ starts lower ∧ Sound lower
  | _, .done => True
  | _, .edge unit target rest => unit ∉ starts rest ∧ Sound target ∧ Sound rest
  | _, .edgeClosing unit _ rest => unit ∉ starts rest ∧ Sound rest

attribute [grind =] Sound

/-- A node stands for at least one entry, and so does a branch. -/
theorem entries_ne_nil (part : Layout τ p) (tagged : p ≠ .edges) : part.entries ≠ [] := by
  induction part with
  | closing => simp [entries]
  | run tag value units next ih =>
      exact List.append_ne_nil_of_right_ne_nil _ (under_ne_nil (ih nofun))
  | fork tag value next ih => exact List.append_ne_nil_of_right_ne_nil _ (ih nofun)
  | split tag unit less rest _ ih => exact List.append_ne_nil_of_right_ne_nil _ (ih nofun)
  | list tag lower unit last _ ih =>
      exact List.append_ne_nil_of_right_ne_nil _ (under_ne_nil (ih nofun))
  | listClosing tag lower unit value =>
      exact List.append_ne_nil_of_right_ne_nil _ (List.cons_ne_nil _ _)
  | done => contradiction
  | edge => contradiction
  | edgeClosing => contradiction

theorem node_entries_ne_nil (part : Layout τ .node) : part.entries ≠ [] :=
  part.entries_ne_nil nofun

/-- Sequences behind a branch or a list of edges go on with at least a unit. -/
theorem ne_nil_of_mem_entries (part : Layout τ p) (onward : p ≠ .node) :
    ∀ entry ∈ part.entries, entry.1 ≠ [] := by
  induction part with
  | closing => contradiction
  | run => contradiction
  | fork => contradiction
  | split tag unit less rest lower upper =>
      exact List.forall_mem_append.2 ⟨lower nofun, upper nofun⟩
  | list tag lower unit last ih _ =>
      exact List.forall_mem_append.2 ⟨ih nofun, ne_nil_of_mem_under (List.cons_ne_nil _ _)⟩
  | listClosing tag lower unit value ih =>
      exact List.forall_mem_append.2
        ⟨ih nofun, List.forall_mem_singleton.2 (List.cons_ne_nil _ _)⟩
  | done => exact List.forall_mem_nil _
  | edge unit target rest _ ih =>
      exact List.forall_mem_append.2 ⟨ne_nil_of_mem_under (List.cons_ne_nil _ _), ih nofun⟩
  | edgeClosing unit value rest ih =>
      exact List.forall_mem_cons.2 ⟨List.cons_ne_nil _ _, ih nofun⟩

/-- Units that a branch does not tell apart lead nowhere. -/
theorem behind_entries_of_not_mem {unit : UInt16} (part : Layout τ p) (onward : p ≠ .node)
    (absent : unit ∉ part.starts) : behind unit part.entries = [] := by
  induction part with
  | closing => contradiction
  | run => contradiction
  | fork => contradiction
  | split tag middle less rest lower upper =>
      simp only [starts, List.mem_append, not_or] at absent
      rw [entries, behind_append, lower nofun absent.1, upper nofun absent.2,
        List.append_nil]
  | list tag lower other last ih _ =>
      simp only [starts, List.mem_append, List.mem_singleton, not_or] at absent
      rw [entries, behind_append, ih nofun absent.1,
        behind_under_of_ne (Ne.symm absent.2), List.append_nil]
  | listClosing tag lower other value ih =>
      simp only [starts, List.mem_append, List.mem_singleton, not_or] at absent
      rw [entries, behind_append, ih nofun absent.1]
      simp [behind, Ne.symm absent.2]
  | done => rfl
  | edge other target rest _ ih =>
      simp only [starts, List.mem_cons, not_or] at absent
      rw [entries, behind_append, ih nofun absent.2,
        behind_under_of_ne (Ne.symm absent.1), List.append_nil]
  | edgeClosing other value rest ih =>
      simp only [starts, List.mem_cons, not_or] at absent
      rw [entries, ← List.singleton_append, behind_append, ih nofun absent.2]
      simp [behind, Ne.symm absent.1]

/-- A layout without its tags. -/
def untag : {p : Part} → Layout τ p → Layout Unit p
  | _, .closing _ value => .closing () value
  | _, .run _ value units next => .run () value units (untag next)
  | _, .fork _ value next => .fork () value (untag next)
  | _, .split _ unit less rest => .split () unit (untag less) (untag rest)
  | _, .list _ lower unit last => .list () (untag lower) unit (untag last)
  | _, .listClosing _ lower unit value => .listClosing () (untag lower) unit value
  | _, .done => .done
  | _, .edge unit target rest => .edge unit (untag target) (untag rest)
  | _, .edgeClosing unit value rest => .edgeClosing unit value (untag rest)

attribute [grind =] untag

@[grind =] theorem width_untag (part : Layout τ p) : part.untag.width = part.width := by
  induction part <;> grind

theorem entries_untag (part : Layout τ p) : part.untag.entries = part.entries := by
  induction part <;> grind

@[grind =] theorem starts_untag (part : Layout τ p) : part.untag.starts = part.starts := by
  induction part <;> grind

theorem sound_untag (part : Layout τ p) : part.untag.Sound ↔ part.Sound := by
  induction part <;> grind

end Layout

end SentenceBreaks.Trie
