import SentenceBreaks.Proofs.Trie.ProbeTurns
import Mathlib.Data.List.Forall2

/-! A probe can be fed a unit, a character, a sequence or text. A unit that does not match takes it
outside. What goes on behind an ending is outside too, but a sequence or the second unit of a
character is then not fed at all, and the probe stays at the ending. Either way nothing matches from
there on. -/

namespace SentenceBreaks.Trie.Probe

variable {units : Array UInt16} {probe moved : Probe} {answer standing : Standing}

/-- A probe where nothing stored goes on. -/
def Ended (units : Array UInt16) (probe : Probe) : Prop :=
  probe.standing units = some .outside ∨ probe.standing units = some .ending

theorem ended_of_standing (stands : probe.standing units = some standing)
    (stops : standing.continues = false) : probe.Ended units := by
  cases standing with
  | outside => exact Or.inl stands
  | ending => exact Or.inr stands
  | within => contradiction
  | passing => contradiction

theorem ended_leave : probe.leave.2.Ended units := Or.inl rfl

/-- Feeding a unit answers where the probe stands then. -/
theorem standing_of_feed {unit : UInt16} (fed : probe.feed units unit = some (answer, moved)) :
    moved.standing units = some answer := by
  obtain ⟨count, _, turns⟩ := probe.turns_feed units unit
  rw [fed] at turns
  obtain ⟨last, _, given⟩ := last_of_turns (fun _ => True) (fun _ _ _ _ => trivial) trivial turns
  cases takes_of_turn last given with
  | leaves => rfl
  | lands landed => exact (land_eq_some landed).2

theorem feed_of_ended (unit : UInt16) (ended : probe.Ended units) :
    probe.feed units unit = some probe.leave := by
  unfold feed
  rcases ended with outside | ending
  · rw [(outside_iff_of_standing outside).1 rfl]
  · generalize shape : Standing.ending = standing at ending
    cases stands_of_standing ending with
    | stopped => contradiction
    | inRun => contradiction
    | atNode place free found =>
        rw [place]
        simp only [if_neg free, found, Option.bind_eq_bind, Option.bind_some, ← shape]
        rfl

theorem feed_of_unreadable (unit : UInt16) (unreadable : probe.standing units = none) :
    probe.feed units unit = none := by
  unfold Probe.standing at unreadable
  unfold feed
  cases place : probe.position with
  | none =>
      rw [place] at unreadable
      contradiction
  | some position =>
      rw [place] at unreadable
      dsimp only at unreadable ⊢
      split at unreadable
      · contradiction
      next free =>
        rw [if_neg free, Option.map_eq_none_iff.1 unreadable]
        rfl

/-- A probe has a value just where it stands at a stored sequence. -/
theorem isSome_value (stands : probe.standing units = some standing) {held : Option Int32}
    (read : probe.value units = some held) : held.isSome = standing.isStored := by
  unfold value at read
  cases stands_of_standing stands with
  | stopped place =>
      rw [place] at read
      cases read
      rfl
  | inRun place coming =>
      rw [place] at read
      dsimp only at read
      rw [if_pos coming] at read
      cases read
      rfl
  | @atNode position lead place free found =>
      rw [place] at read
      simp only [if_neg free, found, Option.bind_eq_bind, Option.bind_some] at read
      cases kind : Standing.ofLead lead with
      | outside => exact absurd kind (ofLead_ne_outside lead)
      | within =>
          rw [kind] at read
          cases read
          rfl
      | ending =>
          rw [kind] at read
          obtain ⟨number, _, same⟩ := Option.bind_eq_some_iff.1 read
          cases same
          rfl
      | passing =>
          rw [kind] at read
          obtain ⟨number, _, same⟩ := Option.bind_eq_some_iff.1 read
          cases same
          rfl

theorem continueFrom_append (standing : Standing) (probe : Probe) (first rest : List UInt16) :
    feedAll.continueFrom units standing probe (first ++ rest) =
      (feedAll.continueFrom units standing probe first).bind fun (next, moved) =>
        feedAll.continueFrom units next moved rest := by
  induction first generalizing standing probe with
  | nil => rfl
  | cons unit first ih =>
      simp only [List.cons_append, feedAll.continueFrom]
      split
      · cases probe.feed units unit with
        | none => rfl
        | some fed => exact ih fed.1 fed.2
      · cases rest with
        | nil => rfl
        | cons => rfl

theorem continueFrom_of_stops (probe : Probe) (sequence : List UInt16)
    (stops : standing.continues = false) (some_unit : sequence ≠ []) :
    feedAll.continueFrom units standing probe sequence = some (.outside, probe) := by
  cases sequence with
  | nil => contradiction
  | cons unit rest =>
      rw [feedAll.continueFrom, stops]
      rfl

theorem through_eq (standing : Standing) (probe : Probe) (text : List Char) :
    feedText.through units standing probe text =
      feedAll.continueFrom units standing probe (Text.Utf16.ofChars text) := by
  induction text generalizing standing probe with
  | nil => rfl
  | cons c rest ih =>
      rw [feedText.through]
      split
      · rw [Text.Utf16.ofChars_cons, continueFrom_append]
        simp only [ih]
        rfl
      next stops =>
        have some_unit : Text.Utf16.ofChars (c :: rest) ≠ [] := fun none =>
          Text.Utf16.units_ne_nil c (List.append_eq_nil_iff.1 none).1
        rw [continueFrom_of_stops probe _ (Bool.eq_false_iff.2 stops) some_unit]

/-- Feeding text is feeding its units. -/
theorem feedText_eq (units : Array UInt16) (text : List Char) (probe : Probe) :
    probe.feedText units text = probe.feedAll units (Text.Utf16.ofChars text) := by
  simp only [feedText, feedAll, through_eq]

theorem feedChar_eq_continueFrom (c : Char) (continues : standing.continues = true) :
    probe.feedChar units c =
      feedAll.continueFrom units standing probe (Text.Utf16.units c) := by
  unfold feedChar Text.Utf16.units
  split
  · simp only [feedAll.continueFrom, continues, if_true]
    exact (Option.bind_fun_some _).symm
  · simp only [feedAll.continueFrom, continues, if_true]
    cases probe.feed units (Text.Utf16.high c) with
    | none => rfl
    | some half =>
        simp only [Option.bind_eq_bind, Option.bind_some]
        split
        · exact (Option.bind_fun_some _).symm
        · rfl

theorem feedChar_of_ended (c : Char) (ended : probe.Ended units) :
    probe.feedChar units c = some probe.leave := by
  unfold feedChar
  simp only [feed_of_ended _ ended]
  split
  · rfl
  · rfl

theorem feedChar_of_unreadable (c : Char) (unreadable : probe.standing units = none) :
    probe.feedChar units c = none := by
  unfold feedChar
  simp only [feed_of_unreadable _ unreadable]
  split
  · rfl
  · rfl

/-- What a probe can be fed. -/
inductive Feed
  | unit (unit : UInt16)
  | char (c : Char)
  | sequence (sequence : List UInt16)
  | text (text : List Char)

namespace Feed

def isEmpty : Feed → Bool
  | .unit _ => false
  | .char _ => false
  | .sequence fed => fed.isEmpty
  | .text fed => fed.isEmpty

/-- Unless it is empty, it is answered outside. -/
def Misses (feed : Feed) (answer : Standing) : Prop := feed.isEmpty = false → answer = .outside

def run (units : Array UInt16) (probe : Probe) : Feed → Option (Standing × Probe)
  | .unit fed => probe.feed units fed
  | .char fed => probe.feedChar units fed
  | .sequence fed => probe.feedAll units fed
  | .text fed => probe.feedText units fed

end Feed

/-- What a probe answers to each of several feeds, and where it is behind the last. -/
def feeds (units : Array UInt16) (probe : Probe) : List Feed → Option (List Standing × Probe)
  | [] => some ([], probe)
  | feed :: later => do
      let (answer, moved) ← feed.run units probe
      let (answers, last) ← feeds units moved later
      return (answer :: answers, last)

/-- Where a probe stands after a feed: where the feed says, or at an ending that it went beyond. -/
def Settled (units : Array UInt16) (answer : Standing) (moved : Probe) : Prop :=
  moved.standing units = some answer ∨ answer = .outside ∧ moved.standing units = some .ending

theorem settled_of_continueFrom {sequence : List UInt16}
    (stands : probe.standing units = some standing)
    (fed : feedAll.continueFrom units standing probe sequence = some (answer, moved)) :
    Settled units answer moved := by
  induction sequence generalizing standing probe with
  | nil =>
      cases fed
      exact Or.inl stands
  | cons unit rest ih =>
      rw [feedAll.continueFrom] at fed
      split at fed
      · obtain ⟨⟨next, half⟩, first, later⟩ := Option.bind_eq_some_iff.1 fed
        exact ih (standing_of_feed first) later
      next stops =>
        cases fed
        rcases ended_of_standing stands (Bool.eq_false_iff.2 stops) with outside | ending
        · exact Or.inl outside
        · exact Or.inr ⟨rfl, ending⟩

theorem settled_of_feedAll {sequence : List UInt16}
    (fed : probe.feedAll units sequence = some (answer, moved)) : Settled units answer moved := by
  obtain ⟨standing, stands, fed⟩ := Option.bind_eq_some_iff.1 fed
  exact settled_of_continueFrom stands fed

theorem settled_of_feedChar {c : Char} (fed : probe.feedChar units c = some (answer, moved)) :
    Settled units answer moved := by
  cases stands : probe.standing units with
  | none =>
      rw [feedChar_of_unreadable c stands] at fed
      contradiction
  | some standing =>
      cases continues : standing.continues with
      | true =>
          rw [feedChar_eq_continueFrom c continues] at fed
          exact settled_of_continueFrom stands fed
      | false =>
          rw [feedChar_of_ended c (ended_of_standing stands continues)] at fed
          cases fed
          exact Or.inl rfl

theorem settled_of_run {feed : Feed} (fed : feed.run units probe = some (answer, moved)) :
    Settled units answer moved := by
  cases feed with
  | unit unit => exact Or.inl (standing_of_feed fed)
  | char c => exact settled_of_feedChar fed
  | sequence sequence => exact settled_of_feedAll fed
  | text text => exact settled_of_feedAll ((feedText_eq units text probe).symm.trans fed)

theorem Settled.ended (settled : Settled units answer moved) (stops : answer.continues = false) :
    moved.Ended units :=
  settled.elim (fun stands => ended_of_standing stands stops) fun beyond => Or.inr beyond.2

theorem feedAll_of_ended (sequence : List UInt16) (ended : probe.Ended units) :
    ∃ answer, probe.feedAll units sequence = some (answer, probe) ∧
      (sequence ≠ [] → answer = .outside) := by
  have stands : ∃ standing, probe.standing units = some standing ∧ standing.continues = false :=
    ended.elim (fun outside => ⟨_, outside, rfl⟩) fun ending => ⟨_, ending, rfl⟩
  obtain ⟨standing, stands, stops⟩ := stands
  unfold feedAll
  rw [stands]
  cases sequence with
  | nil => exact ⟨standing, rfl, fun some_unit => absurd rfl some_unit⟩
  | cons unit rest => exact ⟨.outside, continueFrom_of_stops probe _ stops nofun, fun _ => rfl⟩

/-- Nothing that is fed to an ended probe matches, and the probe stays ended. -/
theorem run_of_ended (feed : Feed) (ended : probe.Ended units) :
    ∃ answer moved, feed.run units probe = some (answer, moved) ∧ moved.Ended units ∧
      feed.Misses answer := by
  cases feed with
  | unit unit => exact ⟨_, _, feed_of_ended unit ended, ended_leave, fun _ => rfl⟩
  | char c => exact ⟨_, _, feedChar_of_ended c ended, ended_leave, fun _ => rfl⟩
  | sequence sequence =>
      obtain ⟨answer, fed, outside⟩ := feedAll_of_ended sequence ended
      exact ⟨answer, probe, fed, ended, fun full => outside (List.isEmpty_eq_false_iff.1 full)⟩
  | text text =>
      obtain ⟨answer, fed, outside⟩ := feedAll_of_ended (Text.Utf16.ofChars text) ended
      refine ⟨answer, probe, (feedText_eq units text probe).trans fed, ended,
        fun full => outside ?_⟩
      exact fun none => List.isEmpty_eq_false_iff.1 full (Text.Utf16.ofChars_injective none)

theorem feeds_cons (feed : Feed) (later : List Feed)
    (fed : feed.run units probe = some (answer, moved)) : feeds units probe (feed :: later) =
      (feeds units moved later).map fun (answers, last) => (answer :: answers, last) := by
  rw [feeds, fed]
  simp only [Option.bind_eq_bind, Option.bind_some]
  cases feeds units moved later <;> rfl

theorem feeds_of_fails (feed : Feed) (later : List Feed) (fails : feed.run units probe = none) :
    feeds units probe (feed :: later) = none := by
  rw [feeds, fails]
  rfl

theorem feeds_of_ended (later : List Feed) (ended : probe.Ended units) :
    ∃ answers last, feeds units probe later = some (answers, last) ∧
      List.Forall₂ Feed.Misses later answers := by
  induction later generalizing probe with
  | nil => exact ⟨[], probe, rfl, .nil⟩
  | cons feed later ih =>
      obtain ⟨answer, moved, fed, still, outside⟩ := run_of_ended feed ended
      obtain ⟨answers, last, rest, others⟩ := ih still
      rw [feeds_cons feed later fed, rest]
      exact ⟨answer :: answers, last, rfl, .cons outside others⟩

/-- One feed and several come to the same answer in the end, and unless it is outside to the same
place. -/
def EndAlike (once : Option (Standing × Probe)) (each : Option (List Standing × Probe)) : Prop :=
  (once = none → each = none) ∧
    ∀ answer moved, once = some (answer, moved) →
      ∃ answers last, each = some (answers, last) ∧ answers.getLast? = some answer ∧
        (answer ≠ .outside → last = moved)

theorem endAlike_none : EndAlike none none := ⟨fun _ => rfl, nofun⟩

theorem endAlike_single {last : Probe} (place : answer ≠ .outside → last = moved) :
    EndAlike (some (answer, moved)) (some ([answer], last)) := by
  refine ⟨nofun, fun other there same => ?_⟩
  cases same
  exact ⟨[answer], last, rfl, rfl, place⟩

theorem EndAlike.cons {once : Option (Standing × Probe)} {each : Option (List Standing × Probe)}
    (first : Standing) (alike : EndAlike once each) :
    EndAlike once (each.map fun (answers, last) => (first :: answers, last)) := by
  refine ⟨fun fails => ?_, fun answer moved fed => ?_⟩
  · rw [alike.1 fails]
    rfl
  · obtain ⟨answers, last, rfl, same, place⟩ := alike.2 answer moved fed
    refine ⟨first :: answers, last, rfl, ?_, place⟩
    rw [List.getLast?_cons, same]
    rfl

theorem endAlike_of_ended (text : List Char) (some_char : text ≠ []) (ended : probe.Ended units) :
    EndAlike (some (.outside, moved)) (feeds units probe (text.map .char)) := by
  induction text generalizing probe with
  | nil => contradiction
  | cons c rest ih =>
      rw [List.map_cons, feeds_cons (.char c) _ (feedChar_of_ended c ended)]
      cases rest with
      | nil => exact endAlike_single fun inside => absurd rfl inside
      | cons d more => exact (ih nofun ended_leave).cons .outside

theorem endAlike_through (text : List Char) (some_char : text ≠ [])
    (settled : Settled units standing probe) :
    EndAlike (feedText.through units standing probe text) (feeds units probe (text.map .char)) := by
  induction text generalizing standing probe with
  | nil => contradiction
  | cons c rest ih =>
      rw [feedText.through]
      cases continues : standing.continues with
      | false => exact endAlike_of_ended _ nofun (settled.ended continues)
      | true =>
          rw [if_pos rfl, ← feedChar_eq_continueFrom c continues]
          cases first : probe.feedChar units c with
          | none =>
              rw [List.map_cons, feeds_of_fails (.char c) _ first]
              exact endAlike_none
          | some fed =>
              obtain ⟨next, moved⟩ := fed
              rw [List.map_cons, feeds_cons (.char c) _ first]
              cases rest with
              | nil => exact endAlike_single fun _ => rfl
              | cons d more => exact (ih nofun (settled_of_feedChar first)).cons next

/-- Text ends alike when it is fed at once and when each character is fed by itself. -/
theorem endAlike_chars (text : List Char) (some_char : text ≠ []) (probe : Probe) :
    EndAlike (probe.feedText units text) (feeds units probe (text.map .char)) := by
  unfold feedText
  cases stands : probe.standing units with
  | some standing => exact endAlike_through text some_char (Or.inl stands)
  | none =>
      cases text with
      | nil => contradiction
      | cons c rest =>
          rw [List.map_cons, feeds_of_fails (.char c) _ (feedChar_of_unreadable c stands)]
          exact endAlike_none

/-- The ways to feed a probe agree on any units and from any place, and what one of them answers is
where the probe stands, save that outside may leave it at an ending. From outside nothing leads
back. -/
theorem feeding_agrees (units : Array UInt16) (probe : Probe) :
    (∀ text, probe.feedText units text = probe.feedAll units (Text.Utf16.ofChars text)) ∧
      (∀ text ≠ [], EndAlike (probe.feedText units text) (feeds units probe (text.map .char))) ∧
      ∀ (feed : Feed) answer moved, feed.run units probe = some (answer, moved) →
        (answer ≠ .outside → moved.standing units = some answer ∧
          ∀ held, moved.value units = some held → held.isSome = answer.isStored) ∧
        (answer = .outside →
          (moved.standing units = some .outside ∨ moved.standing units = some .ending) ∧
          ∀ later, ∃ answers last, feeds units moved later = some (answers, last) ∧
            List.Forall₂ Feed.Misses later answers) := by
  refine ⟨fun text => feedText_eq units text probe, fun text some_char =>
    endAlike_chars text some_char probe, fun feed answer moved fed => ⟨?_, ?_⟩⟩
  · intro inside
    have stands : moved.standing units = some answer :=
      (settled_of_run fed).resolve_right fun beyond => inside beyond.1
    exact ⟨stands, fun held read => isSome_value stands read⟩
  · rintro rfl
    have ended : moved.Ended units := (settled_of_run fed).ended rfl
    exact ⟨ended, fun later => feeds_of_ended later ended⟩

/-- The first unit of a character is stored here, and the character is outside. -/
theorem feeding_agrees_half :
    let units : Array UInt16 := #[0x30, 0xd83d, 0x8001]
    let half : Probe := ⟨0, some 2, 0⟩
    (['😀'] ≠ [] ∧
      EndAlike ((atRoot 0).feedText units ['😀']) (feeds units (atRoot 0) [.char '😀'])) ∧
    (Feed.run units (atRoot 0) (.unit 0xd83d) = some (.ending, half) ∧
      half.standing units = some .ending ∧
      half.value units = some (some 1) ∧ (some (1 : Int32)).isSome = Standing.ending.isStored) ∧
    (Feed.run units (atRoot 0) (.char '😀') = some (.outside, half) ∧
      (half.standing units = some .outside ∨ half.standing units = some .ending) ∧
      ∃ answers last, feeds units half [.text [], .unit 0xde00] = some (answers, last) ∧
        List.Forall₂ Feed.Misses [.text [], .unit 0xde00] answers) := by
  intro units half
  obtain ⟨_, alike, answers⟩ := feeding_agrees units (atRoot 0)
  have first : Feed.run units (atRoot 0) (.unit 0xd83d) = some (.ending, half) := by decide +kernel
  have whole : Feed.run units (atRoot 0) (.char '😀') = some (.outside, half) := by decide +kernel
  have held : half.value units = some (some 1) := by decide +kernel
  have stored := (answers (.unit 0xd83d) .ending half first).1 nofun
  have beyond := (answers (.char '😀') .outside half whole).2 rfl
  exact ⟨⟨nofun, alike ['😀'] nofun⟩, ⟨first, stored.1, held, stored.2 _ held⟩,
    ⟨whole, beyond.1, beyond.2 _⟩⟩

end SentenceBreaks.Trie.Probe
