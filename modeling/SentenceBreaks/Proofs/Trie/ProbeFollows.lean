import SentenceBreaks.Proofs.Trie.NodeForm
import SentenceBreaks.Proofs.Trie.Remainder

/-! A probe over the serial form of a layout. It sits where some entries are left: outside when
there are none, at a node which stands for them, or inside a run in front of such a node. Feeding a
unit takes it to where the entries behind that unit are left, and never leads past the end. -/

namespace SentenceBreaks.Trie

open Layout

/-- Where a probe sits that has some entries left. -/
inductive Sits (units : Array UInt16) : List Entry → Probe → Prop
  | outside {root literals : Nat} : Sits units [] ⟨root, none, literals⟩
  | node {root position : Nat} {rest : List Entry} {tail : List UInt16}
      (here : units.toList.drop position = tail) (form : NodeForm rest tail) :
      Sits units rest ⟨root, some position, 0⟩
  | run {root position : Nat} {rest : List Entry} {run tail : List UInt16} (some_unit : run ≠ [])
      (here : units.toList.drop position = run ++ tail) (form : NodeForm rest tail) :
      Sits units (under run rest) ⟨root, some position, run.length⟩

theorem NodeForm.ne_nil {rest : List Entry} {tail : List UInt16} (form : NodeForm rest tail) :
    rest ≠ [] := by
  cases form with
  | closing => exact List.cons_ne_nil _ _
  | onward body => exact List.append_ne_nil_of_right_ne_nil _ body.ne_nil

namespace Probe

variable {τ : Type} {units : Array UInt16} {rest : List Entry} {probe : Probe}
  {root position : Nat} {tail after run : List UInt16} {p : Part}

theorem sits_run (here : units.toList.drop position = run ++ tail) (form : NodeForm rest tail) :
    Sits units (under run rest) ⟨root, some position, run.length⟩ := by
  cases run with
  | nil =>
      rw [under_nil]
      exact .node here form
  | cons unit run => exact .run (List.cons_ne_nil _ _) here form

theorem ofLead_closing {lead : UInt16} (closing : Codec.isClosing lead = true) :
    Standing.ofLead lead = .ending := by
  have high : Codec.closingBit ≤ lead.toNat := of_decide_eq_true closing
  unfold Codec.closingBit at high
  unfold Standing.ofLead Codec.valueLead
  rw [if_neg (by omega), if_pos closing]

theorem ofLead_carried {lead : UInt16} (high : Codec.valueLead ≤ lead.toNat)
    (closing : Codec.isClosing lead = false) : Standing.ofLead lead = .passing := by
  unfold Standing.ofLead
  rw [if_neg (Nat.not_lt.2 high), if_neg (by rw [closing]; decide)]

/-- The lead of a node tells the standing of the entries it stands for. -/
theorem ofLead_of_form (here : units.toList.drop position = tail) (form : NodeForm rest tail) :
    (units[position]?).map Standing.ofLead = some (Standing.ofRest rest) := by
  cases form with
  | closing =>
      obtain ⟨lead, found, closing⟩ := Codec.isClosing_encodeNumber (Codec.bits_lt _) here
      rw [found, Option.map_some, ofLead_closing closing, Standing.ofRest_closing]
  | @onward value kind longer tail body =>
      cases value with
      | none =>
          obtain ⟨lead, same⟩ := Codec.lead_of_kind body.kind_lt here
          rw [lead, Option.map_some, Standing.ofLead, same, if_pos body.kind_lt]
          exact congrArg some (Standing.ofRest_longer body.ne_nil body.longer_ne_nil).symm
      | some value =>
          obtain ⟨lead, found, high, closing, _⟩ := Codec.lead_of_carried body.kind_lt here
          rw [found, Option.map_some, ofLead_carried high closing,
            Standing.ofRest_carried value body.ne_nil body.longer_ne_nil]

/-- The standing of a probe is that of the entries left. -/
theorem standing_of_sits (sits : Sits units rest probe) :
    probe.standing units = some (Standing.ofRest rest) := by
  cases sits with
  | outside => rfl
  | node here form => exact ofLead_of_form here form
  | run some_unit here form =>
      rw [Standing.ofRest_longer (under_ne_nil form.ne_nil) (ne_nil_of_mem_under some_unit)]
      simp [standing, List.length_pos_iff.2 some_unit]

theorem lookup_nil_of_longer (longer : ∀ entry ∈ rest, entry.1 ≠ []) : rest.lookup [] = none := by
  rw [List.lookup_eq_none_iff]
  intro entry member
  exact bne_iff_ne.2 (Ne.symm (longer entry member))

/-- The value of a probe is that of the empty sequence among the entries left. -/
theorem value_of_sits (sits : Sits units rest probe) :
    probe.value units = some (rest.lookup []) := by
  cases sits with
  | outside => rfl
  | run some_unit here form =>
      rw [lookup_nil_of_longer (ne_nil_of_mem_under some_unit)]
      simp [value, List.length_pos_iff.2 some_unit]
  | node here form =>
      cases form with
      | closing =>
          obtain ⟨lead, found, closing⟩ := Codec.isClosing_encodeNumber (Codec.bits_lt _) here
          have read := Codec.readNumber_encodeNumber (Codec.bits_lt _) here
          simp [value, found, ofLead_closing closing, read, Codec.ofBits_bits]
      | @onward carrying kind longer tail body =>
          cases carrying with
          | none =>
              obtain ⟨lead, same⟩ := Codec.lead_of_kind body.kind_lt here
              have within : Standing.ofLead (Codec.unit kind) = .within := by
                rw [Standing.ofLead, same, if_pos body.kind_lt]
              rw [carried, Option.toList_none, List.map_nil, List.nil_append,
                lookup_nil_of_longer body.longer_ne_nil]
              simp [value, lead, within]
          | some carrying =>
              obtain ⟨lead, found, high, closing, _⟩ := Codec.lead_of_carried body.kind_lt here
              have read := Codec.readCarried_encodeCarried body.kind_lt here
              simp [value, found, ofLead_carried high closing, read, Codec.ofBits_bits, carried]

/-- A feed that leaves some entries: it answers their standing and the probe sits there. -/
def Feeds (units : Array UInt16) (root : Nat) (rest : List Entry)
    (fed : Option (Standing × Probe)) : Prop :=
  ∃ moved, fed = some (Standing.ofRest rest, moved) ∧ Sits units rest moved ∧ moved.root = root

theorem feeds_leave : Feeds units probe.root [] (some probe.leave) :=
  ⟨{ probe with position := none }, rfl, .outside, rfl⟩

theorem feeds_land {literals : Nat} (sits : Sits units rest ⟨probe.root, some position, literals⟩) :
    Feeds units probe.root rest (probe.land units position literals) := by
  refine ⟨⟨probe.root, some position, literals⟩, ?_, sits, rfl⟩
  unfold land
  dsimp only
  rw [standing_of_sits sits, Option.map_some]

theorem feeds_followRun (unit : UInt16) (some_unit : run ≠ [])
    (here : units.toList.drop position = run ++ tail) (form : NodeForm rest tail) :
    Feeds units probe.root (behind unit (under run rest))
      (probe.followRun units unit position run.length) := by
  cases run with
  | nil => contradiction
  | cons first run =>
      have lead := Codec.getElem?_of_drop here
      unfold followRun
      rw [lead]
      simp only [bind, Option.bind, pure]
      by_cases same : unit = first
      · subst same
        rw [if_pos rfl, behind_under_same]
        exact feeds_land (sits_run (Codec.drop_of_cons here) form)
      · rw [if_neg same, behind_under_of_ne (Ne.symm same)]
        exact feeds_leave

/-- A search in a branch that leaves some entries: it finds the node that stands for them, or
nothing if there are none. -/
def Leads (units : Array UInt16) (rest : List Entry) (found : Option (Option Nat)) : Prop :=
  found = some none ∧ rest = [] ∨
    ∃ target tail, found = some (some target) ∧ units.toList.drop target = tail ∧ NodeForm rest tail

theorem behind_singleton_same (unit : UInt16) (value : Int32) (more : List Entry) :
    behind unit (([unit], value) :: more) = ([], value) :: behind unit more := by
  rw [← List.singleton_append, behind_append]
  simp [behind]

theorem behind_singleton_of_ne {unit other : UInt16} (different : other ≠ unit) (value : Int32)
    (more : List Entry) : behind unit (([other], value) :: more) = behind unit more := by
  rw [← List.singleton_append, behind_append]
  simp [behind, different]

/-- The last arm of a list has no number, so the scan of the others ends in front of it. -/
theorem scan_leads {last : UInt16} {final : List UInt16} (lower : Layout τ p) (edges : p = .edges)
    (spans : lower.Spans tail (last :: final)) (sound : lower.Sound)
    (here : units.toList.drop position = tail) (form : NodeForm rest final)
    (absent : last ∉ lower.starts) (unit : UInt16) :
    Leads units (behind unit (lower.entries ++ under [last] rest))
      (scan units unit (lower.width + 1) position) := by
  induction lower generalizing position tail with
  | closing => contradiction
  | run => contradiction
  | fork => contradiction
  | split => contradiction
  | list => contradiction
  | listClosing => contradiction
  | done =>
      cases spans
      have lead := Codec.getElem?_of_drop here
      simp only [width, scan, lead, bind, Option.bind, pure, entries, List.nil_append]
      by_cases same : unit = last
      · subst same
        rw [if_pos rfl, behind_under_same, under_nil]
        exact Or.inr ⟨_, _, rfl, Codec.drop_of_cons here, form⟩
      · rw [if_neg same, behind_under_of_ne (Ne.symm same)]
        exact Or.inl ⟨rfl, rfl⟩
  | edge candidate target others _ ih =>
      obtain ⟨alone, target_sound, others_sound⟩ := sound
      simp only [starts, List.mem_cons, not_or] at absent
      cases spans with
      | @edge _ _ _ middle _ beyond distance fits others_span onward =>
          have number := Codec.drop_of_cons here
          have lead := Codec.getElem?_of_drop here
          obtain ⟨second, found, closing⟩ := Codec.isClosing_encodeNumber fits number
          have read := Codec.readNumber_encodeNumber fits number
          have following := Codec.drop_of_append number
          simp only [width, scan, lead, found, read, closing, bind, Option.bind, pure,
            Bool.and_false, Bool.false_eq_true, if_false]
          rw [entries, List.append_assoc, behind_append]
          by_cases same : unit = candidate
          · subst same
            rw [if_pos rfl, behind_under_same, under_nil, behind_append,
              behind_entries_of_not_mem others (by simp) alone,
              behind_under_of_ne absent.1, List.append_nil, List.append_nil]
            refine Or.inr ⟨_, _, rfl, ?_, nodeForm_of_spans onward target_sound⟩
            rw [← List.drop_drop, following]
          · rw [if_neg same, behind_under_of_ne (Ne.symm same), List.nil_append]
            exact ih rfl others_span others_sound following absent.2
  | edgeClosing candidate value others ih =>
      obtain ⟨alone, others_sound⟩ := sound
      simp only [starts, List.mem_cons, not_or] at absent
      cases spans with
      | @edgeClosing _ _ _ middle _ others_span =>
          have number : units.toList.drop (position + 1) =
              Codec.encodeNumber (Codec.bits value) true ++ middle := Codec.drop_of_cons here
          have lead := Codec.getElem?_of_drop here
          obtain ⟨second, found, closing⟩ :=
            Codec.isClosing_encodeNumber (Codec.bits_lt value) number
          have read := Codec.readNumber_encodeNumber (Codec.bits_lt value) number
          have following := Codec.drop_of_append number
          simp only [width, scan, lead, found, read, closing, bind, Option.bind, pure,
            Bool.and_true, decide_eq_true_eq]
          rw [entries, List.cons_append]
          by_cases same : unit = candidate
          · subst same
            rw [if_pos rfl, behind_singleton_same, behind_append,
              behind_entries_of_not_mem others (by simp) alone, behind_under_of_ne absent.1]
            exact Or.inr ⟨_, _, rfl, number, .closing⟩
          · rw [if_neg same, if_neg same, behind_singleton_of_ne (Ne.symm same)]
            exact ih rfl others_span others_sound following absent.2

/-- The search follows the splits of a branch, and behind them scans a list. -/
theorem search_leads (branch : Layout τ p) (kind : p = .branch) (spans : branch.Spans tail after)
    (sound : branch.Sound) (here : units.toList.drop position = tail) (unit : UInt16) :
    Leads units (behind unit branch.entries) (search units unit branch.width position) := by
  induction branch generalizing position tail after with
  | closing => contradiction
  | run => contradiction
  | fork => contradiction
  | done => contradiction
  | edge => contradiction
  | edgeClosing => contradiction
  | split tag middle less rest less_ih rest_ih =>
      obtain ⟨wide, half, lower, upper, less_sound, rest_sound⟩ := sound
      cases spans with
      | @split _ _ _ _ following _ beyond distance fits rest_span less_span =>
          have lead := Codec.getElem?_of_drop here
          have jump := Codec.drop_of_cons here
          have read := Codec.readJump_encodeJump fits jump
          have behind_jump := Codec.drop_of_append jump
          rw [search, width, if_pos wide, ← half]
          simp only [lead, read, bind, Option.bind]
          rw [entries, behind_append]
          by_cases before : unit < middle
          · have outside : unit ∉ rest.starts := fun member => upper unit member before
            rw [if_pos before, behind_entries_of_not_mem rest (by simp) outside, List.append_nil]
            refine less_ih rfl less_span less_sound ?_
            rw [← List.drop_drop, behind_jump]
          · have outside : unit ∉ less.starts := fun member => before (lower unit member)
            rw [if_neg before, behind_entries_of_not_mem less (by simp) outside, List.nil_append]
            rw [Nat.add_sub_cancel_left]
            exact rest_ih rfl rest_span rest_sound behind_jump
  | list tag lower last target _ _ =>
      obtain ⟨narrow, alone, lower_sound, target_sound⟩ := sound
      cases spans with
      | list arms onward =>
          rw [search, width, if_neg (Nat.not_lt.2 narrow)]
          exact scan_leads lower rfl arms lower_sound here
            (nodeForm_of_spans onward target_sound) alone unit
  | listClosing tag lower last value _ =>
      obtain ⟨narrow, alone, lower_sound⟩ := sound
      cases spans with
      | listClosing arms =>
          rw [search, width, if_neg (Nat.not_lt.2 narrow)]
          have form : NodeForm [([], value)] (Serial.closingUnits value ++ after) := .closing
          exact scan_leads lower rfl arms lower_sound here form alone unit

theorem feeds_followBranch {width : Nat} {unit : UInt16}
    (leads : Leads units rest (search units unit width position)) :
    Feeds units probe.root rest (probe.followBranch units unit width position) := by
  unfold followBranch
  rcases leads with ⟨missed, rfl⟩ | ⟨target, tail, found, here, form⟩
  · rw [missed]
    exact feeds_leave
  · rw [found]
    exact feeds_land (.node here form)

theorem feeds_followKind {kind : Nat} {longer : List Entry} (unit : UInt16)
    (body : BodyForm kind longer tail) (here : units.toList.drop position = tail) :
    Feeds units probe.root (behind unit longer) (probe.followKind units unit kind position) := by
  unfold followKind
  cases body with
  | @run _ next run middle after some_unit most spans sound =>
      have length := List.length_pos_iff.2 some_unit
      rw [if_pos (Nat.le_add_right _ _), Nat.add_sub_cancel_left, Nat.sub_add_cancel length]
      exact feeds_followRun unit some_unit here (nodeForm_of_spans spans sound)
  | @narrow _ next middle after least most spans sound =>
      rw [if_neg (by unfold Codec.runKind at most ⊢; omega), if_neg (by omega),
        Nat.sub_add_cancel (by omega)]
      exact feeds_followBranch (search_leads next rfl spans sound here unit)
  | @wide _ next middle after least most spans sound =>
      have lead := Codec.getElem?_of_drop here
      have count : (Codec.unit (next.width - 1)).toNat + 1 = next.width := by
        rw [Codec.toNat_unit_of_lt (by omega)]
        omega
      rw [if_neg (by decide), if_pos rfl, lead]
      simp only [bind, Option.bind, count]
      exact feeds_followBranch (search_leads next rfl spans sound (Codec.drop_of_cons here) unit)

/-- One step: a feed leaves the entries behind the unit. -/
theorem feeds_feed (unit : UInt16) (sits : Sits units rest probe) :
    Feeds units probe.root (behind unit rest) (probe.feed units unit) := by
  cases sits with
  | outside => exact feeds_leave
  | @run root position _ run tail some_unit here form =>
      simp only [feed, if_pos (List.length_pos_iff.2 some_unit)]
      exact @feeds_followRun _ _ ⟨root, some position, run.length⟩ _ _ _ unit some_unit here form
  | @node root position _ tail here form =>
      simp only [feed, Nat.lt_irrefl, if_false]
      cases form with
      | closing =>
          obtain ⟨lead, found, closing⟩ := Codec.isClosing_encodeNumber (Codec.bits_lt _) here
          simp only [found, bind, Option.bind, ofLead_closing closing]
          exact feeds_leave
      | @onward value kind longer tail body =>
          rw [behind_append, behind_carried, List.nil_append]
          cases value with
          | none =>
              obtain ⟨lead, same⟩ := Codec.lead_of_kind body.kind_lt here
              have within : Standing.ofLead (Codec.unit kind) = .within := by
                rw [Standing.ofLead, same, if_pos body.kind_lt]
              simp only [lead, bind, Option.bind, within, same]
              exact feeds_followKind unit body (Codec.drop_of_cons here)
          | some value =>
              obtain ⟨lead, found, high, closing, same⟩ := Codec.lead_of_carried body.kind_lt here
              have read := Codec.readCarried_encodeCarried body.kind_lt here
              simp only [found, bind, Option.bind, ofLead_carried high closing, read, same]
              exact feeds_followKind unit body (Codec.drop_of_append here)

/-- Feeds the units of a sequence one after the other, whatever each of them answers. -/
def follow (units : Array UInt16) (sequence : List UInt16) (fed : Standing × Probe) :
    Option (Standing × Probe) :=
  sequence.foldlM (fun fed unit => fed.2.feed units unit) fed

/-- A whole run: it leaves the entries behind the sequence. -/
theorem feeds_follow (sequence : List UInt16) (sits : Sits units rest probe) :
    Feeds units probe.root (remainder sequence rest)
      (follow units sequence (Standing.ofRest rest, probe)) := by
  induction sequence generalizing rest probe with
  | nil => exact ⟨probe, rfl, sits, rfl⟩
  | cons unit sequence ih =>
      obtain ⟨moved, fed, further, same⟩ := feeds_feed unit sits
      unfold follow
      rw [List.foldlM_cons, fed, ← same]
      exact ih further

/-- A feed that stops early answers as if it had gone on. -/
theorem continueFrom_of_sits (sequence : List UInt16) (sits : Sits units rest probe) :
    ∃ moved, feedAll.continueFrom units (Standing.ofRest rest) probe sequence =
        some (Standing.ofRest (remainder sequence rest), moved) ∧
      ((Standing.ofRest (remainder sequence rest)).isStored →
        Sits units (remainder sequence rest) moved) := by
  induction sequence generalizing rest probe with
  | nil => exact ⟨probe, rfl, fun _ => sits⟩
  | cons unit sequence ih =>
      rw [feedAll.continueFrom, remainder_cons]
      split
      · obtain ⟨moved, fed, further, _⟩ := feeds_feed unit sits
        rw [fed]
        exact ih further
      next stop =>
        rw [Standing.behind_of_not_continues (Bool.not_eq_true _ ▸ stop), remainder_of_nil]
        exact ⟨probe, rfl, nofun⟩

theorem lookup_of_sits (sequence : List UInt16) (sits : Sits units rest (atRoot 0)) :
    lookup units sequence = some (rest.lookup sequence) := by
  obtain ⟨moved, fed, stored⟩ := continueFrom_of_sits sequence sits
  unfold lookup feedAll
  rw [standing_of_sits sits, ← List.append_nil sequence, ← lookup_remainder, List.append_nil]
  simp only [bind, Option.bind, fed]
  split
  next found => exact value_of_sits (stored found)
  next missed =>
    rw [Standing.isStored_ofRest, Option.not_isSome_iff_eq_none] at missed
    rw [missed]
    rfl

end Probe

end SentenceBreaks.Trie
