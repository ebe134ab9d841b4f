import SentenceBreaks.Proofs.Trie.BuiltTrie

/-! The listing of a trie. Whatever is pending stands for some entries, and the stack for theirs
one behind the other. Opening the top keeps that, so the listing gives the entries of the root,
each once and in their order. -/

namespace SentenceBreaks.Trie

open Layout

namespace Listing

variable {τ : Type} {units : Array UInt16} {position kind : Nat} {path tail after run : List UInt16}
  {rest list longer : List Entry} {p : Part}

/-- The entries that something pending stands for, each behind the units that lead there. -/
inductive Awaits (units : Array UInt16) : Pending → List Entry → Prop
  | node {position : Nat} {path tail : List UInt16} {rest : List Entry}
      (here : units.toList.drop position = tail) (form : NodeForm rest tail) :
      Awaits units (.node position path) (under path.reverse rest)
  | body {kind position : Nat} {path tail : List UInt16} {longer : List Entry}
      (here : units.toList.drop position = tail) (body : BodyForm kind longer tail) :
      Awaits units (.body kind position path) (under path.reverse longer)
  | branch {τ : Type} {position : Nat} {path tail after : List UInt16} {branch : Layout τ .branch}
      (here : units.toList.drop position = tail) (spans : branch.Spans tail after)
      (sound : branch.Sound) :
      Awaits units (.branch branch.width position path) (under path.reverse branch.entries)
  | entry {value : Int32} {path : List UInt16} :
      Awaits units (.entry value path) [(path.reverse, value)]

/-- The entries that a stack stands for. -/
inductive Awaiting (units : Array UInt16) : List Pending → List Entry → Prop
  | nil : Awaiting units [] []
  | cons {top : Pending} {stack : List Pending} {first others : List Entry}
      (awaits : Awaits units top first) (awaiting : Awaiting units stack others) :
      Awaiting units (top :: stack) (first ++ others)

theorem Awaiting.single {pending : Pending} (awaits : Awaits units pending list) :
    Awaiting units [pending] list := by
  have single := Awaiting.cons awaits .nil
  rwa [List.append_nil] at single

theorem Awaiting.append {first second : List Pending} {others : List Entry}
    (awaiting : Awaiting units first list) (more : Awaiting units second others) :
    Awaiting units (first ++ second) (list ++ others) := by
  induction awaiting with
  | nil => exact more
  | cons awaits _ ih =>
      rw [List.cons_append, List.append_assoc]
      exact .cons awaits ih

/-- What a step of opening has to give. -/
def Opens (units : Array UInt16) (list : List Entry) (opened : Option (List Pending)) : Prop :=
  ∃ children, opened = some children ∧ Awaiting units children list

theorem under_reverse_cons (unit : UInt16) (path : List UInt16) (entries : List Entry) :
    under (unit :: path).reverse entries = under path.reverse (under [unit] entries) := by
  rw [List.reverse_cons, under_under]

theorem opens_edges {last : UInt16} {final : List UInt16} (lower : Layout τ p) (edges : p = .edges)
    (spans : lower.Spans tail (last :: final)) (sound : lower.Sound)
    (here : units.toList.drop position = tail) (form : NodeForm rest final) (path : List UInt16) :
    Opens units (under path.reverse (lower.entries ++ under [last] rest))
      (openEdges units path (lower.width + 1) position) := by
  induction lower generalizing position tail with
  | closing => contradiction
  | run => contradiction
  | fork => contradiction
  | split => contradiction
  | list => contradiction
  | listClosing => contradiction
  | done =>
      cases spans
      have lead := Codec.getElem?_of_drop here
      simp only [width, openEdges, lead, bind, Option.bind, pure, entries, List.nil_append]
      refine ⟨_, rfl, .single ?_⟩
      rw [← under_reverse_cons]
      exact .node (Codec.drop_of_cons here) form
  | edge candidate target others _ ih =>
      cases spans with
      | @edge _ _ _ middle _ beyond distance fits others_span onward =>
          have number := Codec.drop_of_cons here
          have lead := Codec.getElem?_of_drop here
          obtain ⟨second, found, closing⟩ := Codec.isClosing_encodeNumber fits number
          have read := Codec.readNumber_encodeNumber fits number
          have following := Codec.drop_of_append number
          obtain ⟨children, opened, awaiting⟩ := ih rfl others_span sound.2.2 following
          simp only [width, openEdges, lead, found, read, opened, closing, bind, Option.bind, pure,
            Bool.false_eq_true, if_false]
          refine ⟨_, rfl, ?_⟩
          rw [entries, List.append_assoc, under_append, ← under_reverse_cons]
          refine .cons (.node ?_ (nodeForm_of_spans onward sound.2.1)) awaiting
          rw [← List.drop_drop, following]
  | edgeClosing candidate value others ih =>
      cases spans with
      | @edgeClosing _ _ _ middle _ others_span =>
          have number : units.toList.drop (position + 1) =
              Codec.encodeNumber (Codec.bits value) true ++ middle := Codec.drop_of_cons here
          have lead := Codec.getElem?_of_drop here
          obtain ⟨second, found, closing⟩ :=
            Codec.isClosing_encodeNumber (Codec.bits_lt value) number
          have read := Codec.readNumber_encodeNumber (Codec.bits_lt value) number
          have following := Codec.drop_of_append number
          obtain ⟨children, opened, awaiting⟩ := ih rfl others_span sound.2 following
          simp only [width, openEdges, lead, found, read, opened, closing, bind, Option.bind, pure,
            if_true, Codec.ofBits_bits]
          refine ⟨_, rfl, ?_⟩
          have own : under path.reverse
                (([candidate], value) :: (others.entries ++ under [last] rest)) =
              [((candidate :: path).reverse, value)] ++
                under path.reverse (others.entries ++ under [last] rest) := by
            simp [under]
          rw [entries, List.cons_append, own]
          exact .cons .entry awaiting

theorem opens_branch (branch : Layout τ .branch) (spans : branch.Spans tail after)
    (sound : branch.Sound) (here : units.toList.drop position = tail) (path : List UInt16) :
    Opens units (under path.reverse branch.entries)
      (openBranch units path branch.width position) := by
  cases branch with
  | split tag middle less rest =>
      obtain ⟨wide, half, _, _, less_sound, rest_sound⟩ := sound
      cases spans with
      | @split _ _ _ _ following _ beyond distance fits rest_span less_span =>
          have jump := Codec.drop_of_cons here
          have read := Codec.readJump_encodeJump fits jump
          have behind_jump := Codec.drop_of_append jump
          rw [openBranch, width, if_pos wide, ← half, Nat.add_sub_cancel_left]
          simp only [read, bind, Option.bind, pure]
          refine ⟨_, rfl, ?_⟩
          rw [entries, under_append]
          refine .cons (.branch ?_ less_span less_sound)
            (.single (.branch behind_jump rest_span rest_sound))
          rw [← List.drop_drop, behind_jump]
  | list tag lower last target =>
      obtain ⟨narrow, _, lower_sound, target_sound⟩ := sound
      cases spans with
      | list arms onward =>
          rw [openBranch, width, if_neg (Nat.not_lt.2 narrow)]
          exact opens_edges lower rfl arms lower_sound here
            (nodeForm_of_spans onward target_sound) path
  | listClosing tag lower last value =>
      obtain ⟨narrow, _, lower_sound⟩ := sound
      cases spans with
      | listClosing arms =>
          rw [openBranch, width, if_neg (Nat.not_lt.2 narrow)]
          have form : NodeForm [([], value)] (Serial.closingUnits value ++ after) := .closing
          exact opens_edges lower rfl arms lower_sound here form path

theorem opens_body (body : BodyForm kind longer tail) (here : units.toList.drop position = tail)
    (path : List UInt16) :
    Opens units (under path.reverse longer) (openBody units path kind position) := by
  unfold openBody
  cases body with
  | @run _ next run middle after some_unit most spans sound =>
      have length := List.length_pos_iff.2 some_unit
      rw [if_pos (Nat.le_add_right _ _), Nat.add_sub_cancel_left, Nat.sub_add_cancel length]
      have following := Codec.drop_of_append here
      have counted := congrArg List.length here
      simp only [List.length_drop, Array.length_toList, List.length_append] at counted
      have passed : (units.extract position (position + run.length)).toList = run := by
        rw [Array.toList_extract, List.extract_eq_take_drop, here, Nat.add_sub_cancel_left,
          List.take_left]
      rw [openRun, if_pos (by omega), passed]
      refine ⟨_, rfl, .single ?_⟩
      have behind_run := @Awaits.node units _ (run.reverse ++ path) _ _ following
        (nodeForm_of_spans spans sound)
      rwa [List.reverse_append, List.reverse_reverse, ← under_under] at behind_run
  | @narrow _ next middle after least most spans sound =>
      rw [if_neg (by unfold Codec.runKind at most ⊢; omega), if_neg (by omega),
        Nat.sub_add_cancel (by omega)]
      exact ⟨_, rfl, .single (.branch here spans sound)⟩
  | @wide _ next middle after least most spans sound =>
      have lead := Codec.getElem?_of_drop here
      have count : (Codec.unit (next.width - 1)).toNat + 1 = next.width := by
        rw [Codec.toNat_unit_of_lt (by omega)]
        omega
      rw [if_neg (by decide), if_pos rfl, lead]
      simp only [bind, Option.bind, pure, count]
      exact ⟨_, rfl, .single (.branch (Codec.drop_of_cons here) spans sound)⟩

/-- Opening answers the first of the entries, or none of them yet, and leaves the others pending. -/
theorem open_awaits {pending : Pending} (awaits : Awaits units pending list) :
    ∃ entry more others, open? units pending = some (entry, more) ∧ Awaiting units more others ∧
      list = entry.toList ++ others := by
  cases awaits with
  | entry => exact ⟨_, _, [], rfl, .nil, rfl⟩
  | @branch _ position path tail after part here spans sound =>
      obtain ⟨children, opened, awaiting⟩ := opens_branch part spans sound here path
      simp only [open?, opened, bind, Option.bind, pure]
      exact ⟨_, _, _, rfl, awaiting, rfl⟩
  | @body kind position path tail longer here body =>
      obtain ⟨children, opened, awaiting⟩ := opens_body body here path
      simp only [open?, opened, bind, Option.bind, pure]
      exact ⟨_, _, _, rfl, awaiting, rfl⟩
  | @node position path tail rest here form =>
      cases form with
      | closing =>
          obtain ⟨lead, found, closing⟩ := Codec.isClosing_encodeNumber (Codec.bits_lt _) here
          have read := Codec.readNumber_encodeNumber (Codec.bits_lt _) here
          have high : ¬ lead.toNat < Codec.valueLead := by
            have high : Codec.closingBit ≤ lead.toNat := of_decide_eq_true closing
            unfold Codec.closingBit at high
            unfold Codec.valueLead
            omega
          simp only [open?, found, bind, Option.bind, pure, if_neg high, if_pos closing, read,
            Codec.ofBits_bits]
          refine ⟨_, _, [], rfl, .nil, ?_⟩
          simp [under]
      | @onward value kind longer tail body =>
          cases value with
          | none =>
              obtain ⟨lead, same⟩ := Codec.lead_of_kind body.kind_lt here
              simp only [open?, lead, bind, Option.bind, pure, same, if_pos body.kind_lt]
              exact ⟨_, _, _, rfl, .single (.body (Codec.drop_of_cons here) body), rfl⟩
          | some value =>
              obtain ⟨lead, found, high, closing, same⟩ := Codec.lead_of_carried body.kind_lt here
              have read := Codec.readCarried_encodeCarried body.kind_lt here
              simp only [open?, found, bind, Option.bind, pure, if_neg (Nat.not_lt.2 high), closing,
                Bool.false_eq_true, if_false, read, same, Codec.ofBits_bits]
              refine ⟨_, _, _, rfl, .single (.body (Codec.drop_of_append here) body), ?_⟩
              simp [under, carried]

/-- The next entry of a stack is the first of those it stands for. -/
theorem next_awaiting (stack : List Pending) (awaiting : Awaiting units stack list) :
    next units stack = some none ∧ list = [] ∨
      ∃ entry more others, next units stack = some (some (entry, more)) ∧ list = entry :: others ∧
        Awaiting units more others := by
  fun_induction next units stack generalizing list with
  | case1 =>
      cases awaiting
      exact Or.inl ⟨rfl, rfl⟩
  | case2 top stack closed =>
      cases awaiting with
      | cons awaits _ =>
          obtain ⟨_, _, _, opened, _⟩ := open_awaits awaits
          rw [closed] at opened
          contradiction
  | case3 top stack entry more found =>
      cases awaiting with
      | cons awaits awaiting =>
          obtain ⟨_, _, others, opened, inside, rfl⟩ := open_awaits awaits
          rw [found, Option.some.injEq, Prod.mk.injEq] at opened
          obtain ⟨rfl, rfl⟩ := opened
          exact Or.inr ⟨_, _, _, rfl, rfl, inside.append awaiting⟩
  | case4 top stack more found ih =>
      cases awaiting with
      | cons awaits awaiting =>
          obtain ⟨_, _, others, opened, inside, rfl⟩ := open_awaits awaits
          rw [found, Option.some.injEq, Prod.mk.injEq] at opened
          obtain ⟨rfl, rfl⟩ := opened
          exact ih (inside.append awaiting)

theorem all_awaiting (stack : List Pending) (awaiting : Awaiting units stack list) :
    all units stack = some list := by
  fun_induction all units stack generalizing list with
  | case1 stack missing =>
      rcases next_awaiting stack awaiting with ⟨found, _⟩ | ⟨_, _, _, found, _⟩
      · cases found.symm.trans missing
      · cases found.symm.trans missing
  | case2 stack nothing =>
      rcases next_awaiting stack awaiting with ⟨_, rfl⟩ | ⟨_, _, _, found, _⟩
      · rfl
      · cases found.symm.trans nothing
  | case3 stack entry more following ih =>
      rcases next_awaiting stack awaiting with ⟨found, _⟩ | ⟨_, _, _, found, rfl, inside⟩
      · cases found.symm.trans following
      · rw [found, Option.some.injEq, Option.some.injEq, Prod.mk.injEq] at following
        obtain ⟨rfl, rfl⟩ := following
        rw [ih inside]
        rfl

theorem take_awaiting (count : Nat) (stack : List Pending) (awaiting : Awaiting units stack list) :
    take units count stack = some (list.take count) := by
  induction count generalizing stack list with
  | zero => rfl
  | succ count ih =>
      rw [take]
      rcases next_awaiting stack awaiting with ⟨found, rfl⟩ | ⟨_, more, _, found, rfl, inside⟩
      · simp [found]
      · simp [found, ih more inside]

end Listing

namespace PackedTrie

theorem entries_of_form {trie : PackedTrie} {list : List Entry}
    (form : NodeForm list trie.units.toList) : trie.entries = some list := by
  have node := @Listing.Awaits.node trie.units 0 [] _ _ List.drop_zero form
  rw [List.reverse_nil, under_nil] at node
  exact Listing.all_awaiting _ (.single node)

/-- The listing of a trie gives every entry once, ascending by the units of the sequences, whether
it is read to the end or stopped earlier, and it never reads outside the units. -/
theorem ofList_entries (sharing : Sharing) (entries : List Entry) (some_entry : entries ≠ [])
    (distinct : (keys entries).Nodup) (short : ∀ key ∈ keys entries, key.length ≤ lengthLimit)
    (fits : JumpsFit sharing entries) :
    ∃ trie list, ofList sharing entries = .ok trie ∧ trie.entries = some list ∧
      list.Perm entries ∧ (list.Pairwise fun first second => first.1 < second.1) ∧
      ∀ count, trie.firstEntries count = some (list.take count) := by
  obtain ⟨trie, built, ascending, form, perm, sorted⟩ :=
    ofList_represents some_entry distinct short fits
  have root : Listing.Awaiting trie.units [.node 0 []] ascending := by
    have node := @Listing.Awaits.node trie.units 0 [] _ _ List.drop_zero form
    rw [List.reverse_nil, under_nil] at node
    exact .single node
  exact ⟨trie, ascending, built, Listing.all_awaiting _ root, perm, sorted,
    fun count => Listing.take_awaiting count _ root⟩

theorem ofList_entries_prefix :
    ∃ trie, ofList .everything [([97, 98], 2), ([97], 1), ([97, 99], 3)] = .ok trie ∧
      ∃ list, trie.entries = some list ∧ list.Perm [([97, 98], 2), ([97], 1), ([97, 99], 3)] := by
  obtain ⟨trie, list, built, listed, perm, _⟩ := ofList_entries .everything
    [([97, 98], 2), ([97], 1), ([97, 99], 3)] (by decide) (by decide) (by decide)
    jumpsFit_closings
  exact ⟨trie, built, list, listed, perm⟩

end PackedTrie

end SentenceBreaks.Trie
