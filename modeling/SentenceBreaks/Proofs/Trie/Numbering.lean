import SentenceBreaks.Trie.Sharing
import SentenceBreaks.Proofs.Trie.LayoutEntries

/-! What the numbers of a layout tell. Numbering changes nothing but the tags, and parts with equal
numbers are equal: the number stands for a signature, in which the numbers of the children stand for
the children. The signatures in the order of their numbers make up a book, which only grows. -/

namespace SentenceBreaks.Trie

/-- The parts of a layout that have tags. -/
inductive Tagged (τ : Type)
  | node (part : Layout τ .node)
  | branch (part : Layout τ .branch)

namespace Layout

variable {τ : Type} {p : Part}

/-- The nodes and branches below a part, those behind a last edge first. -/
def inner : {p : Part} → Layout τ p → List (Tagged τ)
  | _, .closing _ _ => []
  | _, .run _ _ _ next => .node next :: inner next
  | _, .fork _ _ next => .branch next :: inner next
  | _, .split _ _ less rest => (.branch rest :: inner rest) ++ .branch less :: inner less
  | _, .list _ lower _ last => (.node last :: inner last) ++ inner lower
  | _, .listClosing _ lower _ _ => inner lower
  | _, .done => []
  | _, .edge _ target rest => inner rest ++ .node target :: inner target
  | _, .edgeClosing _ _ rest => inner rest

/-- A part with all below it; a list of edges is no part of its own. -/
def within : {p : Part} → Layout τ p → List (Tagged τ)
  | .node, part => .node part :: part.inner
  | .branch, part => .branch part :: part.inner
  | .edges, part => part.inner

def size : {p : Part} → Layout τ p → Nat
  | _, .closing _ _ => 1
  | _, .run _ _ _ next => size next + 1
  | _, .fork _ _ next => size next + 1
  | _, .split _ _ less rest => size less + size rest + 1
  | _, .list _ lower _ last => size lower + size last + 1
  | _, .listClosing _ lower _ _ => size lower + 1
  | _, .done => 1
  | _, .edge _ target rest => size target + size rest + 1
  | _, .edgeClosing _ _ rest => size rest + 1

attribute [grind =] inner size

end Layout

namespace Tagged

variable {τ : Type}

def tag : Tagged τ → τ
  | .node part => part.nodeTag
  | .branch part => part.branchTag

def size : Tagged τ → Nat
  | .node part => part.size
  | .branch part => part.size

def inner : Tagged τ → List (Tagged τ)
  | .node part => part.inner
  | .branch part => part.inner

def signature : Tagged Nat → Signature
  | .node (.closing _ value) => .closing value
  | .node (.run _ value units next) => .run value units next.nodeTag
  | .node (.fork _ value next) => .fork value next.branchTag
  | .branch (.split _ unit less rest) => .split unit less.branchTag rest.branchTag
  | .branch (.list _ lower unit last) => .list (lower.arms ++ [(unit, .tagged last.nodeTag)])
  | .branch (.listClosing _ lower unit value) => .list (lower.arms ++ [(unit, .closing value)])

end Tagged

namespace Layout

variable {τ : Type} {p : Part}

theorem size_lt_of_mem_inner {part : Layout τ p} {deep : Tagged τ}
    (member : deep ∈ part.inner) : deep.size < part.size := by
  induction part with
  | closing => simp [inner] at member
  | run tag value units next ih =>
      rcases List.mem_cons.1 member with rfl | later
      · exact Nat.lt_succ_self _
      · exact Nat.lt_succ_of_lt (ih later)
  | fork tag value next ih =>
      rcases List.mem_cons.1 member with rfl | later
      · exact Nat.lt_succ_self _
      · exact Nat.lt_succ_of_lt (ih later)
  | split tag unit less rest less_ih rest_ih =>
      simp only [inner, List.mem_append, List.mem_cons] at member
      simp only [size]
      rcases member with (rfl | upper) | (rfl | lower)
      · simp only [Tagged.size]
        omega
      · have := rest_ih upper
        omega
      · simp only [Tagged.size]
        omega
      · have := less_ih lower
        omega
  | list tag lower unit last lower_ih last_ih =>
      simp only [inner, List.mem_append, List.mem_cons] at member
      simp only [size]
      rcases member with (rfl | upper) | beneath
      · simp only [Tagged.size]
        omega
      · have := last_ih upper
        omega
      · have := lower_ih beneath
        omega
  | listClosing tag lower unit value ih => exact Nat.lt_succ_of_lt (ih member)
  | done => simp [inner] at member
  | edge unit target rest target_ih rest_ih =>
      simp only [inner, List.mem_append, List.mem_cons] at member
      simp only [size]
      rcases member with later | (rfl | inside)
      · have := rest_ih later
        omega
      · simp only [Tagged.size]
        omega
      · have := target_ih inside
        omega
  | edgeClosing unit value rest ih => exact Nat.lt_succ_of_lt (ih member)

/-- What is below something below a part is below the part. -/
theorem inner_trans {part : Layout τ p} {outer deep : Tagged τ} (member : outer ∈ part.inner)
    (deeper : deep ∈ outer.inner) : deep ∈ part.inner := by
  induction part with
  | closing => simp [inner] at member
  | run tag value units next ih =>
      rcases List.mem_cons.1 member with rfl | later
      · exact List.mem_cons_of_mem _ deeper
      · exact List.mem_cons_of_mem _ (ih later)
  | fork tag value next ih =>
      rcases List.mem_cons.1 member with rfl | later
      · exact List.mem_cons_of_mem _ deeper
      · exact List.mem_cons_of_mem _ (ih later)
  | split tag unit less rest less_ih rest_ih =>
      simp only [inner, List.mem_append, List.mem_cons] at member ⊢
      rcases member with (rfl | upper) | (rfl | lower)
      · exact Or.inl (Or.inr deeper)
      · exact Or.inl (Or.inr (rest_ih upper))
      · exact Or.inr (Or.inr deeper)
      · exact Or.inr (Or.inr (less_ih lower))
  | list tag lower unit last lower_ih last_ih =>
      simp only [inner, List.mem_append, List.mem_cons] at member ⊢
      rcases member with (rfl | upper) | beneath
      · exact Or.inl (Or.inr deeper)
      · exact Or.inl (Or.inr (last_ih upper))
      · exact Or.inr (lower_ih beneath)
  | listClosing tag lower unit value ih => exact ih member
  | done => simp [inner] at member
  | edge unit target rest target_ih rest_ih =>
      simp only [inner, List.mem_append, List.mem_cons] at member ⊢
      rcases member with later | (rfl | inside)
      · exact Or.inl (rest_ih later)
      · exact Or.inr (Or.inr deeper)
      · exact Or.inr (Or.inr (target_ih inside))
  | edgeClosing unit value rest ih => exact ih member

/-- Every part is entered in a book of signatures under its number. -/
def InBook (book : List Signature) (part : Tagged Nat) : Prop :=
  book[part.tag]? = some part.signature

/-- The same number, or for lists of edges the same units with the same numbers behind them. -/
def Alike : {p : Part} → Layout Nat p → Layout Nat p → Prop
  | .node, first, second => first.nodeTag = second.nodeTag
  | .branch, first, second => first.branchTag = second.branchTag
  | .edges, first, second => first.arms = second.arms

/-- Parts of equal numbers have equal signatures. -/
theorem signature_eq {book : List Signature} {first second : Tagged Nat}
    (first_in : InBook book first) (second_in : InBook book second)
    (same : first.tag = second.tag) : first.signature = second.signature := by
  unfold InBook at first_in second_in
  rw [same, second_in] at first_in
  exact (Option.some.inj first_in).symm

theorem entered {book : List Signature} {part : Layout Nat p}
    (all : ∀ inside ∈ part.within, InBook book inside) :
    ∀ inside ∈ part.inner, InBook book inside := by
  intro inside member
  cases p with
  | node => exact all inside (List.mem_cons_of_mem _ member)
  | branch => exact all inside (List.mem_cons_of_mem _ member)
  | edges => exact all inside member

section Inversion

variable {value : Int32} {carried : Option Int32} {units : List UInt16} {unit : UInt16}
  {below less rest : Nat} {others : List (UInt16 × Target Nat)}

theorem closing_of_signature {part : Layout Nat .node}
    (same : (Tagged.node part).signature = .closing value) :
    part = .closing part.nodeTag value := by
  cases part with
  | closing tag other =>
      simp only [Tagged.signature, Signature.closing.injEq] at same
      rw [same, nodeTag]
  | run => simp [Tagged.signature] at same
  | fork => simp [Tagged.signature] at same

theorem run_of_signature {part : Layout Nat .node}
    (same : (Tagged.node part).signature = .run carried units below) :
    ∃ next, part = .run part.nodeTag carried units next ∧ next.nodeTag = below := by
  cases part with
  | closing => simp [Tagged.signature] at same
  | run tag other letters next =>
      simp only [Tagged.signature, Signature.run.injEq] at same
      obtain ⟨rfl, rfl, nexts⟩ := same
      exact ⟨next, rfl, nexts⟩
  | fork => simp [Tagged.signature] at same

theorem fork_of_signature {part : Layout Nat .node}
    (same : (Tagged.node part).signature = .fork carried below) :
    ∃ next, part = .fork part.nodeTag carried next ∧ next.branchTag = below := by
  cases part with
  | closing => simp [Tagged.signature] at same
  | run => simp [Tagged.signature] at same
  | fork tag other next =>
      simp only [Tagged.signature, Signature.fork.injEq] at same
      obtain ⟨rfl, nexts⟩ := same
      exact ⟨next, rfl, nexts⟩

theorem split_of_signature {part : Layout Nat .branch}
    (same : (Tagged.branch part).signature = .split unit less rest) :
    ∃ lower upper, part = .split part.branchTag unit lower upper ∧ lower.branchTag = less ∧
      upper.branchTag = rest := by
  cases part with
  | split tag middle lower upper =>
      simp only [Tagged.signature, Signature.split.injEq] at same
      obtain ⟨rfl, lowers, uppers⟩ := same
      exact ⟨lower, upper, rfl, lowers, uppers⟩
  | list => simp [Tagged.signature] at same
  | listClosing => simp [Tagged.signature] at same

theorem list_of_signature {part : Layout Nat .branch}
    (same : (Tagged.branch part).signature = .list (others ++ [(unit, .tagged below)])) :
    ∃ lower last, part = .list part.branchTag lower unit last ∧ lower.arms = others ∧
      last.nodeTag = below := by
  cases part with
  | split => simp [Tagged.signature] at same
  | list tag lower letter last =>
      simp only [Tagged.signature, Signature.list.injEq] at same
      obtain ⟨lowers, ends⟩ := List.append_inj' same rfl
      simp only [List.cons.injEq, Prod.mk.injEq, Target.tagged.injEq, and_true] at ends
      obtain ⟨rfl, lasts⟩ := ends
      exact ⟨lower, last, rfl, lowers, lasts⟩
  | listClosing =>
      simp only [Tagged.signature, Signature.list.injEq] at same
      have ends := (List.append_inj' same rfl).2
      simp at ends

theorem listClosing_of_signature {part : Layout Nat .branch}
    (same : (Tagged.branch part).signature = .list (others ++ [(unit, .closing value)])) :
    ∃ lower, part = .listClosing part.branchTag lower unit value ∧ lower.arms = others := by
  cases part with
  | split => simp [Tagged.signature] at same
  | list =>
      simp only [Tagged.signature, Signature.list.injEq] at same
      have ends := (List.append_inj' same rfl).2
      simp at ends
  | listClosing tag lower letter other =>
      simp only [Tagged.signature, Signature.list.injEq] at same
      obtain ⟨lowers, ends⟩ := List.append_inj' same rfl
      simp only [List.cons.injEq, Prod.mk.injEq, Target.closing.injEq, and_true] at ends
      obtain ⟨rfl, rfl⟩ := ends
      exact ⟨lower, rfl, lowers⟩

theorem done_of_arms {part : Layout Nat .edges} (same : part.arms = []) : part = .done := by
  cases part with
  | done => rfl
  | edge => simp [arms] at same
  | edgeClosing => simp [arms] at same

theorem edge_of_arms {part : Layout Nat .edges}
    (same : part.arms = (unit, .tagged below) :: others) :
    ∃ target more, part = .edge unit target more ∧ target.nodeTag = below ∧ more.arms = others := by
  cases part with
  | done => simp [arms] at same
  | edge letter target more =>
      simp only [arms, List.cons.injEq, Prod.mk.injEq, Target.tagged.injEq] at same
      obtain ⟨⟨rfl, tags⟩, mores⟩ := same
      exact ⟨target, more, rfl, tags, mores⟩
  | edgeClosing => simp [arms] at same

theorem edgeClosing_of_arms {part : Layout Nat .edges}
    (same : part.arms = (unit, .closing value) :: others) :
    ∃ more, part = .edgeClosing unit value more ∧ more.arms = others := by
  cases part with
  | done => simp [arms] at same
  | edge => simp [arms] at same
  | edgeClosing letter other more =>
      simp only [arms, List.cons.injEq, Prod.mk.injEq, Target.closing.injEq] at same
      obtain ⟨⟨rfl, rfl⟩, mores⟩ := same
      exact ⟨more, rfl, mores⟩

end Inversion

/-- The induction is on the first part. Equal numbers give equal signatures, and these tell that the
second part is made in the same way from children of equal numbers. -/
theorem eq_of_alike {book : List Signature} (first second : Layout Nat p)
    (first_in : ∀ part ∈ first.within, InBook book part)
    (second_in : ∀ part ∈ second.within, InBook book part) (alike : Alike first second) :
    first = second := by
  induction first with
  | closing tag value =>
      have same := signature_eq (first_in _ (List.mem_cons_self ..))
        (second_in _ (List.mem_cons_self ..)) alike
      rw [closing_of_signature same.symm, ← alike, nodeTag]
  | run tag value units next ih =>
      have same := signature_eq (first_in _ (List.mem_cons_self ..))
        (second_in _ (List.mem_cons_self ..)) alike
      obtain ⟨other, second_eq, nexts⟩ := run_of_signature same.symm
      rw [← alike, nodeTag] at second_eq
      subst second_eq
      rw [ih other (entered first_in) (entered second_in) nexts.symm]
  | fork tag value next ih =>
      have same := signature_eq (first_in _ (List.mem_cons_self ..))
        (second_in _ (List.mem_cons_self ..)) alike
      obtain ⟨other, second_eq, nexts⟩ := fork_of_signature same.symm
      rw [← alike, nodeTag] at second_eq
      subst second_eq
      rw [ih other (entered first_in) (entered second_in) nexts.symm]
  | split tag unit less rest less_ih rest_ih =>
      have same := signature_eq (first_in _ (List.mem_cons_self ..))
        (second_in _ (List.mem_cons_self ..)) alike
      obtain ⟨lower, upper, second_eq, lowers, uppers⟩ := split_of_signature same.symm
      rw [← alike, branchTag] at second_eq
      subst second_eq
      obtain ⟨first_upper, first_lower⟩ := List.forall_mem_append.1 (entered first_in)
      obtain ⟨second_upper, second_lower⟩ := List.forall_mem_append.1 (entered second_in)
      rw [less_ih lower first_lower second_lower lowers.symm,
        rest_ih upper first_upper second_upper uppers.symm]
  | list tag lower unit last lower_ih last_ih =>
      have same := signature_eq (first_in _ (List.mem_cons_self ..))
        (second_in _ (List.mem_cons_self ..)) alike
      obtain ⟨other, other_last, second_eq, lowers, lasts⟩ := list_of_signature same.symm
      rw [← alike, branchTag] at second_eq
      subst second_eq
      obtain ⟨first_last, first_lower⟩ := List.forall_mem_append.1 (entered first_in)
      obtain ⟨second_last, second_lower⟩ := List.forall_mem_append.1 (entered second_in)
      rw [lower_ih other first_lower second_lower lowers.symm,
        last_ih other_last first_last second_last lasts.symm]
  | listClosing tag lower unit value ih =>
      have same := signature_eq (first_in _ (List.mem_cons_self ..))
        (second_in _ (List.mem_cons_self ..)) alike
      obtain ⟨other, second_eq, lowers⟩ := listClosing_of_signature same.symm
      rw [← alike, branchTag] at second_eq
      subst second_eq
      rw [ih other (fun part => entered first_in part) (fun part => entered second_in part)
        lowers.symm]
  | done => rw [done_of_arms alike.symm]
  | edge unit target rest target_ih rest_ih =>
      obtain ⟨other, more, rfl, tags, rests⟩ := edge_of_arms alike.symm
      obtain ⟨first_rest, first_target⟩ := List.forall_mem_append.1 first_in
      obtain ⟨second_rest, second_target⟩ := List.forall_mem_append.1 second_in
      rw [target_ih other first_target second_target tags.symm,
        rest_ih more first_rest second_rest rests.symm]
  | edgeClosing unit value rest ih =>
      obtain ⟨more, rfl, rests⟩ := edgeClosing_of_arms alike.symm
      rw [ih more first_in second_in rests.symm]

end Layout

/-- In a book where all parts are entered, a number stands for one part. -/
theorem Tagged.eq_of_tag_eq {book : List Signature} {first second : Tagged Nat}
    (first_in : Layout.InBook book first)
    (first_inner : ∀ part ∈ first.inner, Layout.InBook book part)
    (second_in : Layout.InBook book second)
    (second_inner : ∀ part ∈ second.inner, Layout.InBook book part)
    (same : first.tag = second.tag) : first = second := by
  have signatures := Layout.signature_eq first_in second_in same
  cases first with
  | node first =>
      cases second with
      | node second =>
          rw [Layout.eq_of_alike first second (List.forall_mem_cons.2 ⟨first_in, first_inner⟩)
            (List.forall_mem_cons.2 ⟨second_in, second_inner⟩) same]
      | branch second => cases first <;> cases second <;> simp [Tagged.signature] at signatures
  | branch first =>
      cases second with
      | node second => cases first <;> cases second <;> simp [Tagged.signature] at signatures
      | branch second =>
          rw [Layout.eq_of_alike first second (List.forall_mem_cons.2 ⟨first_in, first_inner⟩)
            (List.forall_mem_cons.2 ⟨second_in, second_inner⟩) same]

/-- A part that is in a book with all below it. -/
def Booked (book : List Signature) (part : Tagged Nat) : Prop :=
  Layout.InBook book part ∧ ∀ deep ∈ part.inner, Layout.InBook book deep

namespace Booked

variable {book : List Signature} {part other deep : Tagged Nat}

theorem inner (booked : Booked book part) (member : deep ∈ part.inner) : Booked book deep := by
  refine ⟨booked.2 deep member, fun deeper inside => booked.2 deeper ?_⟩
  cases part with
  | node part => exact Layout.inner_trans member inside
  | branch part => exact Layout.inner_trans member inside

theorem eq_of_tag (booked : Booked book part) (other_booked : Booked book other)
    (same : part.tag = other.tag) : part = other :=
  Tagged.eq_of_tag_eq booked.1 booked.2 other_booked.1 other_booked.2 same

theorem tag_ne (booked : Booked book part) (member : deep ∈ part.inner) : deep.tag ≠ part.tag := by
  intro same
  have equal := (booked.inner member).eq_of_tag booked same
  subst equal
  cases deep with
  | node part => exact Nat.lt_irrefl _ (Layout.size_lt_of_mem_inner member)
  | branch part => exact Nat.lt_irrefl _ (Layout.size_lt_of_mem_inner member)

end Booked

/-- A registry keeps a book if it counts its signatures and knows none in another place. -/
structure Registry.Keeps (registry : Registry) (book : List Signature) : Prop where
  count : registry.count = book.length
  known : ∀ (signature : Signature) (number : Nat), registry.known[signature]? = some number →
    book[number]? = some signature

namespace Sharing

open Layout

variable {book grown : List Signature} {registry : Registry}

theorem keeps_empty : Registry.Keeps ⟨∅, 0⟩ [] := ⟨rfl, by simp⟩

theorem getElem?_grown {number : Nat} {signature : Signature} (extends_ : book <+: grown)
    (found : book[number]? = some signature) : grown[number]? = some signature := by
  obtain ⟨more, rfl⟩ := extends_
  rw [List.getElem?_append_left (List.getElem?_eq_some_iff.1 found).1, found]

theorem inBook_grown {part : Tagged Nat} (extends_ : book <+: grown) (entered : InBook book part) :
    InBook grown part :=
  getElem?_grown extends_ entered

theorem register_keeps (sharing : Sharing) (signature : Signature) (keeps : registry.Keeps book) :
    ∃ grown, book <+: grown ∧ (sharing.register signature registry).2.Keeps grown ∧
      grown[(sharing.register signature registry).1]? = some signature := by
  have longer := List.prefix_append book [signature]
  have last : (book ++ [signature])[registry.count]? = some signature := by
    rw [keeps.count, List.getElem?_concat_length]
  unfold register
  split
  · split
    next number found =>
      exact ⟨book, List.prefix_rfl, keeps, keeps.known signature number found⟩
    next absent =>
      refine ⟨book ++ [signature], longer, ⟨by simp [keeps.count], ?_⟩, last⟩
      intro other number found
      rw [Std.HashMap.getElem?_insert] at found
      split at found
      next equal =>
        rw [← Option.some.inj found, ← eq_of_beq equal]
        exact last
      next => exact getElem?_grown longer (keeps.known other number found)
  · refine ⟨book ++ [signature], longer, ⟨by simp [fresh, keeps.count], ?_⟩, last⟩
    intro other number found
    exact getElem?_grown longer (keeps.known other number found)

/-- The whole numbered part is in a book that goes on from the one before. -/
theorem number_keeps (sharing : Sharing) {p : Part} (part : Layout Unit p)
    (keeps : registry.Keeps book) :
    ∃ grown, book <+: grown ∧ (sharing.number part registry).2.Keeps grown ∧
      ∀ inside ∈ (sharing.number part registry).1.within, InBook grown inside := by
  induction part generalizing registry book with
  | closing tag value =>
      obtain ⟨grown, longer, kept, own⟩ := register_keeps sharing (.closing value) keeps
      exact ⟨grown, longer, kept, List.forall_mem_cons.2 ⟨own, List.forall_mem_nil _⟩⟩
  | run tag value units next ih =>
      obtain ⟨first, longer, kept, children⟩ := ih keeps
      obtain ⟨grown, more, kept, own⟩ := register_keeps sharing
        (.run value units (sharing.number next registry).1.nodeTag) kept
      exact ⟨grown, longer.trans more, kept, List.forall_mem_cons.2 ⟨own, fun inside member =>
        inBook_grown more (children inside member)⟩⟩
  | fork tag value next ih =>
      obtain ⟨first, longer, kept, children⟩ := ih keeps
      obtain ⟨grown, more, kept, own⟩ := register_keeps sharing
        (.fork value (sharing.number next registry).1.branchTag) kept
      exact ⟨grown, longer.trans more, kept, List.forall_mem_cons.2 ⟨own, fun inside member =>
        inBook_grown more (children inside member)⟩⟩
  | split tag unit less rest less_ih rest_ih =>
      obtain ⟨first, longer, kept, lower⟩ := less_ih keeps
      obtain ⟨second, further, kept, upper⟩ := rest_ih kept
      obtain ⟨grown, more, kept, own⟩ := register_keeps sharing
        (.split unit (sharing.number less registry).1.branchTag
          (sharing.number rest (sharing.number less registry).2).1.branchTag) kept
      refine ⟨grown, longer.trans (further.trans more), kept,
        List.forall_mem_cons.2 ⟨own, fun inside member => ?_⟩⟩
      rcases List.mem_append.1 member with above | beneath
      · exact inBook_grown more (upper inside above)
      · exact inBook_grown (further.trans more) (lower inside beneath)
  | list tag lower unit last lower_ih last_ih =>
      obtain ⟨first, longer, kept, lowers⟩ := lower_ih keeps
      obtain ⟨second, further, kept, upper⟩ := last_ih kept
      obtain ⟨grown, more, kept, own⟩ := register_keeps sharing
        (.list ((sharing.number lower registry).1.arms ++
          [(unit, .tagged (sharing.number last (sharing.number lower registry).2).1.nodeTag)])) kept
      refine ⟨grown, longer.trans (further.trans more), kept,
        List.forall_mem_cons.2 ⟨own, fun inside member => ?_⟩⟩
      rcases List.mem_append.1 member with above | beneath
      · exact inBook_grown more (upper inside above)
      · exact inBook_grown (further.trans more) (lowers inside beneath)
  | listClosing tag lower unit value ih =>
      obtain ⟨first, longer, kept, lowers⟩ := ih keeps
      obtain ⟨grown, more, kept, own⟩ := register_keeps sharing
        (.list ((sharing.number lower registry).1.arms ++ [(unit, .closing value)])) kept
      exact ⟨grown, longer.trans more, kept, List.forall_mem_cons.2 ⟨own, fun inside member =>
        inBook_grown more (lowers inside member)⟩⟩
  | done => exact ⟨book, List.prefix_rfl, keeps, by simp [number, within, Layout.inner]⟩
  | edge unit target rest target_ih rest_ih =>
      obtain ⟨first, longer, kept, targets⟩ := target_ih keeps
      obtain ⟨grown, more, kept, rests⟩ := rest_ih kept
      refine ⟨grown, longer.trans more, kept, fun inside member => ?_⟩
      rcases List.mem_append.1 member with later | own
      · exact rests inside later
      · exact inBook_grown more (targets inside own)
  | edgeClosing unit value rest ih => exact ih keeps

theorem untag_number (sharing : Sharing) {p : Part} (part : Layout Unit p) (registry : Registry) :
    (sharing.number part registry).1.untag = part := by
  induction part generalizing registry <;> grind

end Sharing

end SentenceBreaks.Trie
