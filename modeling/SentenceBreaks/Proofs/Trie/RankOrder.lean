import SentenceBreaks.Trie.Rank
import SentenceBreaks.Proofs.Trie.Numbering

/-! What the ranks of a layout tell. A pass over a part settles the parts in it that were not
settled before, and gives them ranks above all older ones. So the ranks from that of a branch to
that of its last child belong to parts within the last child, and no part ranks with a branch that
has no last child. -/

namespace SentenceBreaks.Trie

namespace Layout

variable {τ : Type} {p : Part}

/-- The nodes that a list of edges leads to. -/
def targets : {p : Part} → Layout τ p → List (Tagged τ)
  | _, .closing _ _ => []
  | _, .run _ _ _ _ => []
  | _, .fork _ _ _ => []
  | _, .split _ _ _ _ => []
  | _, .list _ _ _ _ => []
  | _, .listClosing _ _ _ _ => []
  | _, .done => []
  | _, .edge _ target rest => .node target :: targets rest
  | _, .edgeClosing _ _ rest => targets rest

attribute [grind =] targets

/-- A node or a branch itself; for edges what they lead to. -/
def heads : {p : Part} → Layout τ p → List (Tagged τ)
  | .node, part => [.node part]
  | .branch, part => [.branch part]
  | .edges, part => part.targets

theorem mem_inner_of_mem_targets {part : Layout τ p} {head : Tagged τ}
    (member : head ∈ part.targets) : head ∈ part.inner := by
  induction part with
  | closing => simp [targets] at member
  | run => simp [targets] at member
  | fork => simp [targets] at member
  | split => simp [targets] at member
  | list => simp [targets] at member
  | listClosing => simp [targets] at member
  | done => simp [targets] at member
  | edge unit target rest _ ih =>
      rcases List.mem_cons.1 member with rfl | later
      · exact List.mem_append_right _ (List.mem_cons_self ..)
      · exact List.mem_append_left _ (ih later)
  | edgeClosing unit value rest ih => exact ih member

/-- Whatever is below edges is what they lead to or is below that. -/
theorem mem_targets_of_mem_inner {part : Layout τ p} (edges : p = .edges) {deep : Tagged τ}
    (member : deep ∈ part.inner) : ∃ head ∈ part.targets, deep = head ∨ deep ∈ head.inner := by
  induction part with
  | closing => contradiction
  | run => contradiction
  | fork => contradiction
  | split => contradiction
  | list => contradiction
  | listClosing => contradiction
  | done => simp [inner] at member
  | edge unit target rest _ ih =>
      rcases List.mem_append.1 member with later | own
      · obtain ⟨head, head_member, reached⟩ := ih rfl later
        exact ⟨head, List.mem_cons_of_mem _ head_member, reached⟩
      · exact ⟨.node target, List.mem_cons_self .., List.mem_cons.1 own⟩
  | edgeClosing unit value rest ih => exact ih rfl member

theorem mem_within_of_mem_heads {part : Layout τ p} {head : Tagged τ}
    (member : head ∈ part.heads) : head ∈ part.within := by
  cases p with
  | node => exact List.mem_cons.2 (Or.inl (List.mem_singleton.1 member))
  | branch => exact List.mem_cons.2 (Or.inl (List.mem_singleton.1 member))
  | edges => exact mem_inner_of_mem_targets member

end Layout

namespace Ranks

open Layout

variable {book : List Signature} {before middle after ranks : Ranks} {part : Tagged Nat}
  {visited others : List (Tagged Nat)} {base last bound start : Nat}

/-- Parts that rank from a branch to its last child are among those within the child. -/
def Reserves (ranks : Ranks) : Tagged Nat → Prop
  | .node _ => True
  | .branch (.split tag _ less rest) => Shut tag rest.branchTag less.heads rest.within
  | .branch (.list tag lower _ last) => Shut tag last.nodeTag lower.heads last.within
  | .branch (.listClosing tag lower _ _) =>
      ∀ head ∈ lower.heads, ranks.settled[head.tag]? ≠ some (ranks.entered.getD tag 0)
where
  Shut (branch child : Nat) (heads inside : List (Tagged Nat)) : Prop :=
    ∀ head ∈ heads, ∀ rank : Nat, ranks.settled[head.tag]? = some rank →
      ranks.entered.getD branch 0 ≤ rank → rank ≤ ranks.settled.getD child 0 → head ∈ inside

/-- All below a settled part is settled, and the ranks reserved for its last child are kept free. -/
def Orderly (book : List Signature) (ranks : Ranks) : Prop :=
  ∀ (part : Tagged Nat) (rank : Nat), Booked book part → ranks.settled[part.tag]? = some rank →
    (∀ deep ∈ part.inner, ∃ rank, ranks.settled[deep.tag]? = some rank) ∧ ranks.Reserves part

def Below (ranks : Ranks) (bound : Nat) : Prop :=
  ∀ tag rank : Nat, ranks.settled[tag]? = some rank → rank < bound

/-- What a pass over some parts changes: it settles them at ranks of a range and enters no other. -/
structure Passed (visited : List (Tagged Nat)) (base last : Nat) (before after : Ranks) : Prop where
  kept : ∀ tag rank : Nat, before.settled[tag]? = some rank → after.settled[tag]? = some rank
  fresh : ∀ tag rank : Nat, after.settled[tag]? = some rank → before.settled[tag]? = some rank ∨
    base ≤ rank ∧ rank ≤ last ∧ ∃ part ∈ visited, part.tag = tag
  reached : ∀ part ∈ visited, ∃ rank, after.settled[part.tag]? = some rank
  entered : ∀ tag : Nat,
    (∀ part ∈ visited, part.tag = tag → ∃ rank, before.settled[tag]? = some rank) →
      after.entered[tag]? = before.entered[tag]?

theorem Passed.below (passed : Passed visited base last before after) (older : before.Below base)
    (ordered : base ≤ last + 1) : after.Below (last + 1) := by
  intro tag rank found
  rcases passed.fresh tag rank found with old | ⟨_, high, _⟩
  · have := older tag rank old
    omega
  · omega

theorem Passed.refl (reached : ∀ part ∈ visited, ∃ rank, ranks.settled[part.tag]? = some rank) :
    Passed visited base last ranks ranks :=
  ⟨fun _ _ found => found, fun _ _ found => Or.inl found, reached, fun _ _ => rfl⟩

/-- Two passes one after the other, the second one at higher ranks. -/
theorem Passed.trans {more : List (Tagged Nat)} {mid high : Nat}
    (first : Passed visited base mid before middle) (second : Passed more high last middle after)
    (above : base ≤ high) (ordered : mid ≤ last) :
    Passed (visited ++ more) base last before after where
  kept tag rank found := second.kept tag rank (first.kept tag rank found)
  fresh tag rank found := by
    rcases second.fresh tag rank found with old | ⟨low, most, part, member, same⟩
    · rcases first.fresh tag rank old with older | ⟨low, most, part, member, same⟩
      · exact Or.inl older
      · exact Or.inr ⟨low, Nat.le_trans most ordered, part, List.mem_append_left _ member, same⟩
    · exact Or.inr ⟨Nat.le_trans above low, most, part, List.mem_append_right _ member, same⟩
  reached part member := by
    rcases List.mem_append.1 member with early | late
    · obtain ⟨rank, found⟩ := first.reached part early
      exact ⟨rank, second.kept _ _ found⟩
    · exact second.reached part late
  entered tag untouched := by
    rw [second.entered tag, first.entered tag]
    · exact fun part member => untouched part (List.mem_append_left _ member)
    · intro part member same
      obtain ⟨rank, found⟩ := untouched part (List.mem_append_right _ member) same
      exact ⟨rank, first.kept _ _ found⟩

theorem Reserves.shut_of_same {branch child : Nat} {heads inside : List (Tagged Nat)}
    (shut : Reserves.Shut before branch child heads inside)
    (heads_same : ∀ head ∈ heads, after.settled[head.tag]? = before.settled[head.tag]?)
    (child_same : after.settled[child]? = before.settled[child]?)
    (entered : after.entered[branch]? = before.entered[branch]?) :
    Reserves.Shut after branch child heads inside := by
  intro head member
  rw [heads_same head member, Std.HashMap.getD_eq_getD_getElem?, entered,
    Std.HashMap.getD_eq_getD_getElem?, child_same]
  simpa only [Std.HashMap.getD_eq_getD_getElem?] using shut head member

/-- The ranks that a part keeps free depend on those below it and on its own entry only. -/
theorem reserves_of_same (reserves : before.Reserves part)
    (settled : ∀ deep ∈ part.inner, after.settled[deep.tag]? = before.settled[deep.tag]?)
    (entered : after.entered[part.tag]? = before.entered[part.tag]?) : after.Reserves part := by
  cases part with
  | node => trivial
  | branch part =>
      cases part with
      | split tag unit less rest =>
          refine Reserves.shut_of_same reserves ?_ ?_ entered
          · intro head member
            exact settled head (List.mem_append_right _ (mem_within_of_mem_heads member))
          · exact settled (.branch rest) (List.mem_append_left _ (List.mem_cons_self ..))
      | list tag lower unit last =>
          refine Reserves.shut_of_same reserves ?_ ?_ entered
          · intro head member
            exact settled head (List.mem_append_right _ (mem_within_of_mem_heads member))
          · exact settled (.node last) (List.mem_append_left _ (List.mem_cons_self ..))
      | listClosing tag lower unit value =>
          have entered : after.entered[tag]? = before.entered[tag]? := entered
          intro head member
          have head_same := settled head (mem_within_of_mem_heads member)
          rw [head_same, Std.HashMap.getD_eq_getD_getElem?, entered]
          simpa only [Std.HashMap.getD_eq_getD_getElem?] using reserves head member

theorem settled_settle_self (tag last : Nat) (ranks : Ranks) :
    (settle tag (last, ranks)).2.settled[tag]? = some last :=
  Std.HashMap.getElem?_insert_self

theorem settled_settle_of_ne {tag other : Nat} (last : Nat) (ranks : Ranks)
    (different : other ≠ tag) :
    (settle tag (last, ranks)).2.settled[other]? = ranks.settled[other]? := by
  simp only [settle]
  rw [Std.HashMap.getElem?_insert, if_neg (by simpa using Ne.symm different)]

/-- A pass over all below a part leaves the part itself unsettled. -/
theorem Passed.absent (passed : Passed part.inner base last before after)
    (booked : Booked book part) (absent : before.settled[part.tag]? = Option.none) :
    after.settled[part.tag]? = Option.none := by
  cases found : after.settled[part.tag]? with
  | none => rfl
  | some rank =>
      rcases passed.fresh _ _ found with old | ⟨_, _, deep, member, equal⟩
      · rw [absent] at old
        contradiction
      · exact absurd equal (booked.tag_ne member)

/-- A part is settled behind a pass over all below it, which its own entry may come before. -/
theorem Passed.settle {entry : Std.HashMap Nat Nat}
    (passed : Passed part.inner base last ⟨entry, before.settled⟩ after)
    (booked : Booked book part) (absent : before.settled[part.tag]? = Option.none)
    (only : ∀ tag, tag ≠ part.tag → entry[tag]? = before.entered[tag]?) (ordered : base ≤ last) :
    Passed (part :: part.inner) base last before (settle part.tag (last, after)).2 where
  kept tag rank found := by
    rw [settled_settle_of_ne last after (by rintro rfl; rw [absent] at found; contradiction)]
    exact passed.kept tag rank found
  fresh tag rank found := by
    by_cases equal : tag = part.tag
    · rw [equal, settled_settle_self] at found
      obtain rfl := Option.some.inj found
      exact Or.inr ⟨ordered, Nat.le_refl _, part, List.mem_cons_self .., equal.symm⟩
    · rw [settled_settle_of_ne last after equal] at found
      rcases passed.fresh tag rank found with old | ⟨low, high, deep, member, reached⟩
      · exact Or.inl old
      · exact Or.inr ⟨low, high, deep, List.mem_cons_of_mem _ member, reached⟩
  reached inside member := by
    rcases List.mem_cons.1 member with rfl | below
    · exact ⟨last, settled_settle_self _ last after⟩
    · obtain ⟨rank, found⟩ := passed.reached inside below
      exact ⟨rank, by rw [settled_settle_of_ne last after (booked.tag_ne below)]; exact found⟩
  entered tag untouched := by
    have different : tag ≠ part.tag := by
      rintro rfl
      obtain ⟨rank, found⟩ := untouched part (List.mem_cons_self ..) rfl
      rw [absent] at found
      contradiction
    rw [← only tag different]
    exact passed.entered tag fun inside member => untouched inside (List.mem_cons_of_mem _ member)

/-- Settling a part takes nothing from the settled ones, and what it reserves is kept free. -/
theorem Orderly.settle (orderly : Orderly book ranks) (booked : Booked book part)
    (absent : ranks.settled[part.tag]? = Option.none)
    (reached : ∀ deep ∈ part.inner, ∃ rank, ranks.settled[deep.tag]? = some rank)
    (reserves : ranks.Reserves part) : Orderly book (settle part.tag (last, ranks)).2 := by
  intro settled rank settled_booked found
  have all : (∀ deep ∈ settled.inner, ∃ rank, ranks.settled[deep.tag]? = some rank) ∧
      ranks.Reserves settled := by
    by_cases equal : settled.tag = part.tag
    · obtain rfl := settled_booked.eq_of_tag booked equal
      exact ⟨reached, reserves⟩
    · rw [settled_settle_of_ne last ranks equal] at found
      exact orderly settled rank settled_booked found
  obtain ⟨inside, still⟩ := all
  have same : ∀ deep ∈ settled.inner,
      (Ranks.settle part.tag (last, ranks)).2.settled[deep.tag]? = ranks.settled[deep.tag]? := by
    intro deep member
    apply settled_settle_of_ne
    intro equal
    obtain ⟨rank, found⟩ := inside deep member
    rw [equal, absent] at found
    contradiction
  refine ⟨fun deep member => ?_, reserves_of_same still same rfl⟩
  rw [same deep member]
  exact inside deep member

theorem settle_passed {entry : Std.HashMap Nat Nat} (booked : Booked book part)
    (absent : before.settled[part.tag]? = Option.none)
    (only : ∀ tag, tag ≠ part.tag → entry[tag]? = before.entered[tag]?) (ordered : base ≤ last)
    (passed : Passed part.inner base last ⟨entry, before.settled⟩ after)
    (orderly : Orderly book after) (reserves : after.Reserves part) :
    base ≤ (settle part.tag (last, after)).1 ∧
      Passed (part :: part.inner) base (settle part.tag (last, after)).1 before
        (settle part.tag (last, after)).2 ∧
      Orderly book (settle part.tag (last, after)).2 :=
  ⟨ordered, passed.settle booked absent only ordered,
    orderly.settle booked (passed.absent booked absent) passed.reached reserves⟩

/-- A part that is settled already is passed over. -/
theorem passed_of_settled (booked : Booked book part) (orderly : Orderly book ranks)
    (settled : ranks.settled.contains part.tag) :
    start ≤ start ∧ Passed (part :: part.inner) start start ranks ranks ∧ Orderly book ranks := by
  rw [Std.HashMap.contains_eq_isSome_getElem?, Option.isSome_iff_exists] at settled
  obtain ⟨rank, found⟩ := settled
  refine ⟨Nat.le_refl _, Passed.refl (List.forall_mem_cons.2 ⟨⟨rank, found⟩, ?_⟩), orderly⟩
  exact (orderly part rank booked found).1

/-- Entering an unsettled branch takes nothing from those which are settled. -/
theorem orderly_enter {tag : Nat} (orderly : Orderly book ranks)
    (absent : ranks.settled[tag]? = Option.none) : Orderly book (ranks.enter tag start) := by
  intro settled rank booked found
  obtain ⟨inside, reserves⟩ := orderly settled rank booked found
  refine ⟨inside, reserves_of_same reserves (fun _ _ => rfl) ?_⟩
  simp only [enter]
  rw [Std.HashMap.getElem?_insert, if_neg]
  rintro equal
  rw [eq_of_beq equal] at absent
  rw [show ranks.settled[settled.tag]? = some rank from found] at absent
  contradiction

theorem entered_enter (tag start : Nat) (ranks : Ranks) (other : Nat) (different : other ≠ tag) :
    (ranks.enter tag start).entered[other]? = ranks.entered[other]? := by
  simp only [enter]
  rw [Std.HashMap.getElem?_insert, if_neg (by simpa using Ne.symm different)]

/-- The entry of a branch stays through the pass over all below it. -/
theorem entered_of_passed (booked : Booked book part)
    (passed : Passed part.inner base last (before.enter part.tag start) after) :
    after.entered[part.tag]? = some start := by
  rw [passed.entered part.tag]
  · simp only [enter]
    rw [Std.HashMap.getElem?_insert_self]
  · intro deep member equal
    exact absurd equal (booked.tag_ne member)

/-- What the lower part of a branch leads to ranks outside the range of the last child, unless the
pass over the last child has settled it. -/
theorem shut_of_passes {branch child mid : Nat} {heads inside more : List (Tagged Nat)}
    (heads_booked : ∀ head ∈ heads, Booked book head) (booked : ∀ part ∈ inside, Booked book part)
    (older : before.Below start) (entered : after.entered[branch]? = some start)
    (upper : Passed inside start mid before middle) (settled : ∃ part ∈ inside, part.tag = child)
    (ordered : start ≤ mid) (lower : Passed more (mid + 1) last middle after) :
    Reserves.Shut after branch child heads inside := by
  intro head member rank found low high
  obtain ⟨part, part_member, rfl⟩ := settled
  obtain ⟨top, top_found⟩ := upper.reached part part_member
  have top_low := upper.below older (by omega) _ _ top_found
  rw [Std.HashMap.getD_eq_getD_getElem?, lower.kept _ _ top_found, Option.getD_some] at high
  rw [Std.HashMap.getD_eq_getD_getElem?, entered, Option.getD_some] at low
  rcases lower.fresh _ _ found with settled | ⟨above, _⟩
  · rcases upper.fresh _ _ settled with old | ⟨_, _, other, other_member, same⟩
    · have := older _ _ old
      omega
    · rw [(heads_booked head member).eq_of_tag (booked other other_member) same.symm]
      exact other_member
  · omega

/-- A branch with a last child: the pass over the child comes first, and the ranks behind it go to
what else is below the branch. -/
theorem settle_above {child mid : Nat} {heads upper beneath : List (Tagged Nat)}
    (booked : Booked book part) (absent : before.settled[part.tag]? = Option.none)
    (inner_eq : part.inner = upper ++ beneath)
    (upper_booked : ∀ inside ∈ upper, Booked book inside)
    (heads_booked : ∀ head ∈ heads, Booked book head) (settled : ∃ part ∈ upper, part.tag = child)
    (older : before.Below start) (first_ordered : start ≤ mid) (ordered : mid ≤ last)
    (first : Passed upper start mid (before.enter part.tag start) middle)
    (second : Passed beneath (mid + 1) last middle after) (orderly : Orderly book after)
    (reserves : Reserves.Shut after part.tag child heads upper → after.Reserves part) :
    start ≤ (settle part.tag (last, after)).1 ∧
      Passed (part :: part.inner) start (settle part.tag (last, after)).1 before
        (settle part.tag (last, after)).2 ∧
      Orderly book (settle part.tag (last, after)).2 := by
  have through : Passed part.inner start last (before.enter part.tag start) after := by
    rw [inner_eq]
    exact first.trans second (Nat.le_succ_of_le first_ordered) ordered
  refine settle_passed booked absent (entered_enter part.tag start before)
    (Nat.le_trans first_ordered ordered) through orderly (reserves ?_)
  have older : (before.enter part.tag start).Below start := older
  exact shut_of_passes heads_booked upper_booked older (entered_of_passed booked through) first
    settled first_ordered second

end Ranks

/-- The least rank that a part can get: targets of edges rank above the starting rank. -/
def Part.least : Part → Nat → Nat
  | .edges, start => start + 1
  | _, start => start

namespace Ranks

open Layout

variable {book : List Signature} {p : Part}

theorem unsettled {ranks : Ranks} {tag : Nat} (absent : ¬ ranks.settled.contains tag) :
    ranks.settled[tag]? = Option.none :=
  Std.HashMap.getElem?_eq_none_of_contains_eq_false (Bool.not_eq_true _ ▸ absent)

/-- The induction follows the pass. It carries that all older ranks are below the starting one,
which keeps the parts that were settled before out of every reserved range. -/
theorem assign_passed (part : Layout Nat p) (booked : ∀ inside ∈ part.within, Booked book inside)
    (start : Nat) (ranks : Ranks) (older : ranks.Below (p.least start))
    (orderly : Orderly book ranks) :
    start ≤ (assign part start ranks).1 ∧
      Passed part.within (p.least start) (assign part start ranks).1 ranks
        (assign part start ranks).2 ∧
      Orderly book (assign part start ranks).2 := by
  induction part generalizing start ranks with
  | closing tag value =>
      obtain ⟨own, _⟩ := List.forall_mem_cons.1 booked
      rw [assign]
      split
      next settled => exact passed_of_settled own orderly settled
      next absent =>
        have absent := unsettled absent
        exact settle_passed own absent (fun _ _ => rfl) (Nat.le_refl _)
          (Passed.refl (List.forall_mem_nil _)) orderly trivial
  | run tag value units next ih =>
      obtain ⟨own, booked⟩ := List.forall_mem_cons.1 booked
      rw [assign]
      split
      next settled => exact passed_of_settled own orderly settled
      next absent =>
        have absent := unsettled absent
        obtain ⟨ordered, passed, kept⟩ := ih booked start ranks older orderly
        exact settle_passed own absent (fun _ _ => rfl) ordered passed kept trivial
  | fork tag value next ih =>
      obtain ⟨own, booked⟩ := List.forall_mem_cons.1 booked
      rw [assign]
      split
      next settled => exact passed_of_settled own orderly settled
      next absent =>
        have absent := unsettled absent
        obtain ⟨ordered, passed, kept⟩ := ih booked start ranks older orderly
        exact settle_passed own absent (fun _ _ => rfl) ordered passed kept trivial
  | split tag unit less rest less_ih rest_ih =>
      obtain ⟨own, booked⟩ := List.forall_mem_cons.1 booked
      obtain ⟨upper, beneath⟩ := List.forall_mem_append.1 booked
      rw [assign]
      split
      next settled => exact passed_of_settled own orderly settled
      next absent =>
        have absent := unsettled absent
        have older : (ranks.enter tag start).Below start := older
        obtain ⟨rest_ordered, rest_passed, rest_kept⟩ := rest_ih upper start
          (ranks.enter tag start) older (orderly_enter orderly absent)
        obtain ⟨ordered, passed, kept⟩ := less_ih beneath
          ((assign rest start (ranks.enter tag start)).1 + 1)
          (assign rest start (ranks.enter tag start)).2
          (rest_passed.below older (Nat.le_succ_of_le rest_ordered)) rest_kept
        exact settle_above own absent rfl upper
          (fun head member => beneath head (@mem_within_of_mem_heads _ _ less _ member))
          ⟨_, List.mem_cons_self .., rfl⟩ older rest_ordered (Nat.le_of_succ_le ordered)
          rest_passed passed kept id
  | list tag lower unit last lower_ih last_ih =>
      obtain ⟨own, booked⟩ := List.forall_mem_cons.1 booked
      obtain ⟨upper, beneath⟩ := List.forall_mem_append.1 booked
      rw [assign]
      split
      next settled => exact passed_of_settled own orderly settled
      next absent =>
        have absent := unsettled absent
        have older : (ranks.enter tag start).Below start := older
        obtain ⟨last_ordered, last_passed, last_kept⟩ := last_ih upper start
          (ranks.enter tag start) older (orderly_enter orderly absent)
        obtain ⟨ordered, passed, kept⟩ := lower_ih beneath
          (assign last start (ranks.enter tag start)).1
          (assign last start (ranks.enter tag start)).2
          (last_passed.below older (Nat.le_succ_of_le last_ordered)) last_kept
        exact settle_above own absent rfl upper
          (fun head member => beneath head (@mem_within_of_mem_heads _ _ lower _ member))
          ⟨_, List.mem_cons_self .., rfl⟩ older last_ordered ordered last_passed passed kept id
  | listClosing tag lower unit value ih =>
      obtain ⟨own, booked⟩ := List.forall_mem_cons.1 booked
      rw [assign]
      split
      next settled => exact passed_of_settled own orderly settled
      next absent =>
        have absent := unsettled absent
        obtain ⟨ordered, passed, kept⟩ := ih booked start (ranks.enter tag start)
          (fun tag rank found => Nat.lt_succ_of_lt (older tag rank found))
          (orderly_enter orderly absent)
        have through : Passed lower.within start _ _ _ :=
          (Passed.refl (List.forall_mem_nil _)).trans passed (Nat.le_succ start) ordered
        refine settle_passed own absent (entered_enter tag start ranks) ordered through kept ?_
        have entry : (assign lower start (ranks.enter tag start)).2.entered[tag]? = some start :=
          entered_of_passed own through
        intro head member found
        rw [Std.HashMap.getD_eq_getD_getElem?, entry, Option.getD_some] at found
        rcases passed.fresh _ _ found with old | ⟨low, _⟩
        · exact Nat.lt_irrefl _ (older _ _ old)
        · exact Nat.lt_irrefl _ low
  | done => exact ⟨Nat.le_refl _, Passed.refl (List.forall_mem_nil _), orderly⟩
  | edge unit target rest target_ih rest_ih =>
      obtain ⟨rest_booked, target_booked⟩ := List.forall_mem_append.1 booked
      obtain ⟨rest_ordered, rest_passed, rest_kept⟩ := rest_ih rest_booked start ranks older orderly
      obtain ⟨ordered, passed, kept⟩ := target_ih target_booked
        ((assign rest start ranks).1 + 1) (assign rest start ranks).2
        (rest_passed.below older (Nat.succ_le_succ rest_ordered)) rest_kept
      rw [assign]
      exact ⟨by omega, rest_passed.trans passed (Nat.succ_le_succ rest_ordered) (by omega), kept⟩
  | edgeClosing unit value rest ih => exact ih booked start ranks older orderly

/-- In the end every part is settled, and its reserved ranks are kept free. -/
theorem ofLayout_orderly (root : Layout Nat .node)
    (booked : ∀ inside ∈ root.within, Booked book inside) :
    Orderly book (ofLayout root) ∧
      ∀ inside ∈ root.within, ∃ rank, (ofLayout root).settled[inside.tag]? = some rank := by
  have unset : ∀ tag : Nat, none.settled[tag]? = Option.none :=
    fun tag => Std.HashMap.getElem?_empty
  obtain ⟨_, passed, orderly⟩ := assign_passed root booked 1 none
    (fun tag rank found => by rw [unset] at found; contradiction)
    (fun part rank _ found => by rw [unset] at found; contradiction)
  exact ⟨orderly, passed.reached⟩

end Ranks

end SentenceBreaks.Trie
