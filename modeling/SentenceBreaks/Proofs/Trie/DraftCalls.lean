import SentenceBreaks.Text.Utf16
import SentenceBreaks.Proofs.Trie.Remainder
import SentenceBreaks.Proofs.Trie.DraftEntries
import Mathlib.Data.List.Nodup

/-! Runs of calls on one draft. What a call answers is told by the calls and answers since the last
clearing alone: by the entries that were taken, whatever their order, and by the first trie that was
built. Calls that were refused leave nothing behind. -/

namespace SentenceBreaks.Trie.Draft

open Text

inductive Call
  | add (text : String) (value : Int32)
  | addUnits (sequence : List UInt16) (value : Int32)
  | build (sharing : Sharing)
  | clear

/-- The entry that a call asks to add. -/
def Call.entry : Call → Option Entry
  | .add text value => some (Utf16.ofString text, value)
  | .addUnits sequence value => some (sequence, value)
  | .build _ => none
  | .clear => none

def Call.clears : Call → Bool
  | .clear => true
  | _ => false

/-- What a call gives, a trie only if it builds one, and the draft after it. -/
def perform (draft : Draft) : Call → Except Fault (Option PackedTrie × Draft)
  | .add text value => (draft.add (Utf16.ofString text) value).map (none, ·)
  | .addUnits sequence value => (draft.add sequence value).map (none, ·)
  | .build sharing => (draft.build sharing).map fun (trie, next) => (some trie, next)
  | .clear => .ok (none, empty)

structure Event where
  call : Call
  answer : Except Fault (Option PackedTrie)

/-- A draft after some calls, with the calls and their answers, the latest first. -/
structure Session where
  draft : Draft
  events : List Event

namespace Session

def start : Session := ⟨.empty, []⟩

def answer (session : Session) (call : Call) : Except Fault (Option PackedTrie) :=
  (session.draft.perform call).map Prod.fst

/-- The draft stays as it is when a call is refused. -/
def after (session : Session) (call : Call) : Session where
  draft :=
    match session.draft.perform call with
    | .ok (_, next) => next
    | .error _ => session.draft
  events := ⟨call, session.answer call⟩ :: session.events

def run (calls : List Call) : Session := calls.foldl after start

end Session

/-! What the events tell. -/

def sinceClearing (events : List Event) : List Event := events.takeWhile (!·.call.clears)

def Event.taken (event : Event) : Option Entry :=
  match event.answer with
  | .ok _ => event.call.entry
  | .error _ => none

def Event.built (event : Event) : Option (Sharing × PackedTrie) :=
  match event.call, event.answer with
  | .build sharing, .ok (some trie) => some (sharing, trie)
  | _, _ => none

/-- The entries that were taken since the last clearing. -/
def taken (events : List Event) : List Entry := (sinceClearing events).filterMap Event.taken

/-- The tries that were built since the last clearing, the latest first, and what was to be shared
in them. -/
def built (events : List Event) : List (Sharing × PackedTrie) :=
  (sinceClearing events).filterMap Event.built

/-- What was to be shared in the first trie since the last clearing, which may be the next one. -/
def firstSharing (events : List Event) (next : Sharing) : Sharing :=
  ((built events).getLast?.map Prod.fst).getD next

section Events

variable {event : Event} {events : List Event}

theorem sinceClearing_cons (stays : event.call.clears = false) :
    sinceClearing (event :: events) = event :: sinceClearing events :=
  List.takeWhile_cons_of_pos (by rw [stays]; rfl)

theorem taken_cons_none (stays : event.call.clears = false) (nothing : event.taken = none) :
    taken (event :: events) = taken events := by
  rw [taken, sinceClearing_cons stays, List.filterMap_cons_none nothing, taken]

theorem taken_cons_some {entry : Entry} (stays : event.call.clears = false)
    (one : event.taken = some entry) : taken (event :: events) = entry :: taken events := by
  rw [taken, sinceClearing_cons stays, List.filterMap_cons_some one, taken]

theorem built_cons_none (stays : event.call.clears = false) (nothing : event.built = none) :
    built (event :: events) = built events := by
  rw [built, sinceClearing_cons stays, List.filterMap_cons_none nothing, built]

theorem built_cons_some {trie : Sharing × PackedTrie} (stays : event.call.clears = false)
    (one : event.built = some trie) : built (event :: events) = trie :: built events := by
  rw [built, sinceClearing_cons stays, List.filterMap_cons_some one, built]

end Events

/-- A draft is as its events tell: it holds the entries that were taken, and if a trie was built it
is sealed with that one, which is made of those entries. -/
structure Session.Consistent (session : Session) : Prop where
  sorted : Ascending.Sorted Prod.fst session.draft.entries
  held : session.draft.entries.Perm (taken session.events)
  unsealed : built session.events = [] → session.draft.sealed = none
  sealed : ∀ made ∈ built session.events, session.draft.sealed = some made.2
  first : ∀ made, (built session.events).getLast? = some made →
    made.2 = .ofEntries made.1 session.draft.entries ∧ session.draft.entries ≠ []

namespace Session

variable {session : Session} {call : Call} {sequence : List UInt16} {value : Int32}
  {sharing : Sharing}

theorem perform_of_entry {draft : Draft} (adds : call.entry = some (sequence, value)) :
    draft.perform call = (draft.add sequence value).map (none, ·) := by
  cases call with
  | add text own =>
      obtain ⟨rfl, rfl⟩ := Prod.mk.inj (Option.some.inj adds)
      rfl
  | addUnits units own =>
      obtain ⟨rfl, rfl⟩ := Prod.mk.inj (Option.some.inj adds)
      rfl
  | build => contradiction
  | clear => contradiction

theorem isSome_sealed_iff (consistent : session.Consistent) :
    session.draft.sealed.isSome ↔ built session.events ≠ [] := by
  constructor
  · intro is_sealed nothing
    rw [consistent.unsealed nothing] at is_sealed
    contradiction
  · intro some_trie
    obtain ⟨made, member⟩ := List.exists_mem_of_ne_nil _ some_trie
    rw [consistent.sealed made member]
    rfl

theorem mem_keys_taken (consistent : session.Consistent) :
    sequence ∈ keys (taken session.events) ↔
      ∃ held ∈ session.draft.entries, held.1 = sequence := by
  rw [keys, ← (consistent.held.map Prod.fst).mem_iff, List.mem_map]

/-- A draft takes an entry if it is not sealed and the sequence is short enough and new. -/
theorem add_eq (consistent : session.Consistent) (sequence : List UInt16) (value : Int32) :
    (built session.events ≠ [] ∧ session.draft.add sequence value = .error .alreadyBuilt) ∨
    (built session.events = [] ∧ lengthLimit < sequence.length ∧
      session.draft.add sequence value = .error (.tooLong sequence.length)) ∨
    (built session.events = [] ∧ sequence.length ≤ lengthLimit ∧
      sequence ∈ keys (taken session.events) ∧
      session.draft.add sequence value = .error .duplicate) ∨
    (built session.events = [] ∧ sequence.length ≤ lengthLimit ∧
      sequence ∉ keys (taken session.events) ∧
      ∃ more, session.draft.add sequence value = .ok ⟨more, none⟩ ∧
        more.Perm ((sequence, value) :: session.draft.entries) ∧
        Ascending.Sorted Prod.fst more) := by
  by_cases nothing : built session.events = []
  · have open_ := consistent.unsealed nothing
    by_cases long : lengthLimit < sequence.length
    · refine Or.inr (Or.inl ⟨nothing, long, ?_⟩)
      rw [add, open_, if_neg (by simp), if_pos long]
    · by_cases old : sequence ∈ keys (taken session.events)
      · refine Or.inr (Or.inr (Or.inl ⟨nothing, Nat.not_lt.1 long, old, ?_⟩))
        have refused : Ascending.insert Prod.fst (sequence, value) session.draft.entries = none :=
          (Ascending.insert_eq_none_iff consistent.sorted).2 ((mem_keys_taken consistent).1 old)
        rw [add, open_, if_neg (by simp), if_neg long, refused]
      · refine Or.inr (Or.inr (Or.inr ⟨nothing, Nat.not_lt.1 long, old, ?_⟩))
        refine add_ok _ _ _ open_ (Nat.not_lt.1 long) consistent.sorted fun held member same => ?_
        exact old ((mem_keys_taken consistent).2 ⟨held, member, same⟩)
  · refine Or.inl ⟨nothing, ?_⟩
    rw [add, if_pos ((isSome_sealed_iff consistent).2 nothing)]

/-- A draft builds if it holds an entry. It answers the first trie again, or else that of its
entries. -/
theorem build_eq (consistent : session.Consistent) (sharing : Sharing) :
    (taken session.events = [] ∧ built session.events = [] ∧
      session.draft.build sharing = .error .nothingAdded) ∨
    (taken session.events ≠ [] ∧ ∃ trie,
      session.draft.build sharing = .ok (trie, ⟨session.draft.entries, some trie⟩) ∧
      (∀ made ∈ built session.events, made.2 = trie) ∧
      trie = .ofEntries (firstSharing session.events sharing) session.draft.entries) := by
  by_cases nothing : built session.events = []
  · have open_ := consistent.unsealed nothing
    by_cases bare : session.draft.entries = []
    · refine Or.inl ⟨?_, nothing, ?_⟩
      · exact (bare ▸ consistent.held).nil_eq.symm
      · rw [build, open_, bare]
        rfl
    · refine Or.inr ⟨fun none_taken => bare (none_taken ▸ consistent.held).eq_nil,
        .ofEntries sharing session.draft.entries, ?_, by simp [nothing], ?_⟩
      · rw [build, open_]
        exact if_neg (by simpa using bare)
      · rw [firstSharing, nothing]
        rfl
  · obtain ⟨made, last⟩ : ∃ made, (built session.events).getLast? = some made :=
      ⟨_, List.getLast?_eq_some_getLast nothing⟩
    have member := List.mem_of_getLast? last
    have is_sealed := consistent.sealed made member
    obtain ⟨same, some_entry⟩ := consistent.first made last
    refine Or.inr ⟨fun none_taken => some_entry (none_taken ▸ consistent.held).eq_nil, made.2,
      ?_, fun other other_member => ?_, ?_⟩
    · have whole : session.draft = ⟨session.draft.entries, some made.2⟩ := by
        rw [← is_sealed]
      rw [build, is_sealed]
      exact congrArg (fun draft => Except.ok (made.2, draft)) whole
    · have again := consistent.sealed other other_member
      rw [is_sealed] at again
      exact (Option.some.inj again).symm
    · rw [firstSharing, last]
      exact same

theorem consistent_start : start.Consistent where
  sorted := List.Pairwise.nil
  held := List.Perm.refl _
  unsealed _ := rfl
  sealed := List.forall_mem_nil _
  first := nofun

/-- A call that is refused leaves a draft that is as the events tell. -/
theorem Consistent.refused {fault : Fault} (consistent : session.Consistent)
    (stays : call.clears = false) (refused : session.draft.perform call = .error fault) :
    (session.after call).Consistent := by
  have same : session.after call = ⟨session.draft, ⟨call, .error fault⟩ :: session.events⟩ := by
    rw [after, answer, refused]
    rfl
  have takes : taken (⟨call, .error fault⟩ :: session.events) = taken session.events :=
    taken_cons_none stays rfl
  have builds : built (⟨call, .error fault⟩ :: session.events) = built session.events :=
    built_cons_none stays (by cases call <;> rfl)
  rw [same]
  exact ⟨consistent.sorted, takes ▸ consistent.held, builds ▸ consistent.unsealed,
    builds ▸ consistent.sealed, builds ▸ consistent.first⟩

theorem Consistent.after_add (consistent : session.Consistent)
    (adds : call.entry = some (sequence, value)) : (session.after call).Consistent := by
  have stays : call.clears = false := by
    cases call <;> first | rfl | contradiction
  have performed := @perform_of_entry call sequence value session.draft adds
  rcases add_eq consistent sequence value with
    ⟨_, refused⟩ | ⟨_, _, refused⟩ | ⟨_, _, _, refused⟩ | ⟨nothing, _, _, more, added, perm, sorted⟩
  · exact consistent.refused stays (by rw [performed, refused]; rfl)
  · exact consistent.refused stays (by rw [performed, refused]; rfl)
  · exact consistent.refused stays (by rw [performed, refused]; rfl)
  · rw [added] at performed
    have same : session.after call = ⟨⟨more, none⟩, ⟨call, .ok none⟩ :: session.events⟩ := by
      rw [after, answer, performed]
      rfl
    have takes : taken (⟨call, .ok none⟩ :: session.events) =
        (sequence, value) :: taken session.events := taken_cons_some stays adds
    have builds : built (⟨call, .ok none⟩ :: session.events) = [] :=
      (built_cons_none stays (by cases call <;> rfl)).trans nothing
    rw [same]
    exact ⟨sorted, takes ▸ perm.trans (consistent.held.cons _), fun _ => rfl,
      builds ▸ List.forall_mem_nil _, builds ▸ nofun⟩

theorem Consistent.after_build (consistent : session.Consistent) (sharing : Sharing) :
    (session.after (.build sharing)).Consistent := by
  rcases build_eq consistent sharing with ⟨_, _, refused⟩ | ⟨some_taken, trie, answered, all, same⟩
  · exact consistent.refused rfl (by rw [perform, refused]; rfl)
  · have next : session.after (.build sharing) = ⟨⟨session.draft.entries, some trie⟩,
        ⟨.build sharing, .ok (some trie)⟩ :: session.events⟩ := by
      rw [after, answer, perform, answered]
      rfl
    have takes : taken (⟨.build sharing, .ok (some trie)⟩ :: session.events) =
        taken session.events := taken_cons_none rfl rfl
    have builds : built (⟨.build sharing, .ok (some trie)⟩ :: session.events) =
        (sharing, trie) :: built session.events := built_cons_some rfl rfl
    rw [next]
    refine ⟨consistent.sorted, takes ▸ consistent.held, builds ▸ nofun, ?_, ?_⟩
    · rw [builds]
      exact List.forall_mem_cons.2 ⟨rfl, fun made member => by rw [all made member]⟩
    · rw [builds]
      intro made last
      have some_entry : session.draft.entries ≠ [] := fun bare =>
        some_taken (bare ▸ consistent.held).nil_eq.symm
      refine ⟨?_, some_entry⟩
      rw [List.getLast?_cons] at last
      obtain rfl := Option.some.inj last
      rw [firstSharing] at same
      cases earliest : (built session.events).getLast? with
      | none =>
          rw [earliest] at same
          exact same
      | some made => exact (consistent.first made earliest).1

theorem Consistent.after (consistent : session.Consistent) (call : Call) :
    (session.after call).Consistent := by
  cases call with
  | add text value => exact consistent.after_add rfl
  | addUnits sequence value => exact consistent.after_add rfl
  | build sharing => exact consistent.after_build sharing
  | clear =>
      exact ⟨List.Pairwise.nil, List.Perm.refl _, fun _ => rfl, List.forall_mem_nil _, nofun⟩

theorem Consistent.run (consistent : session.Consistent) (calls : List Call) :
    (calls.foldl Session.after session).Consistent := by
  induction calls generalizing session with
  | nil => exact consistent
  | cons call later ih => exact ih (consistent.after call)

theorem consistent_run (calls : List Call) : (run calls).Consistent :=
  consistent_start.run calls

theorem answer_of_entry (session : Session) (adds : call.entry = some (sequence, value)) :
    session.answer call = (session.draft.add sequence value).map fun _ => none := by
  rw [answer, perform_of_entry adds]
  cases session.draft.add sequence value <;> rfl

theorem draft_foldl {first second : Session} (same : first.draft = second.draft)
    (later : List Call) :
    (later.foldl Session.after first).draft = (later.foldl Session.after second).draft := by
  induction later generalizing first second with
  | nil => exact same
  | cons call later ih =>
      apply ih
      rw [Session.after, Session.after, same]

/-- A call that is refused changes no answer of a later one. -/
theorem answer_skip {calls : List Call} {fault : Fault}
    (refused : (run calls).answer call = .error fault) (later : List Call) (next : Call) :
    (run (calls ++ call :: later)).answer next = (run (calls ++ later)).answer next := by
  have kept : ((run calls).after call).draft = (run calls).draft := by
    unfold answer at refused
    unfold Session.after
    dsimp only
    split
    next made performed =>
      rw [performed] at refused
      contradiction
    · rfl
  have drafts := draft_foldl kept later
  unfold run at drafts ⊢
  rw [List.foldl_append, List.foldl_append, List.foldl_cons, answer, answer, drafts]

/-- Two drafts that hold the same entries hold them in the same order. -/
theorem entries_eq {other : Session} (consistent : session.Consistent)
    (other_consistent : other.Consistent)
    (same : ∀ entry, entry ∈ taken session.events ↔ entry ∈ taken other.events) :
    session.draft.entries = other.draft.entries := by
  apply Ascending.eq_of_mem_iff consistent.sorted other_consistent.sorted
  intro entry
  rw [consistent.held.mem_iff, other_consistent.held.mem_iff]
  exact same entry

theorem answer_build (consistent : session.Consistent) {trie : PackedTrie}
    (answered : session.answer (.build sharing) = .ok (some trie)) :
    trie = .ofEntries (firstSharing session.events sharing) session.draft.entries := by
  rw [answer, perform] at answered
  rcases build_eq consistent sharing with ⟨_, _, refused⟩ | ⟨_, made, built_now, _, same⟩
  · rw [refused] at answered
    contradiction
  · rw [built_now] at answered
    obtain rfl := Option.some.inj (Except.ok.inj answered)
    exact same

/-- After any calls, what the next one answers is told by the events since the last clearing. An
entry is refused once a trie was built, or else if it is too long, or else if its sequence was taken
before. A trie is built if any entry was taken, and is the same as before if there was one. It is
told by the set of the entries and by what was to be shared in the first one. -/
theorem answers_of_run (calls : List Call) :
    (∀ (call : Call) (sequence : List UInt16) (value : Int32),
      call.entry = some (sequence, value) →
        (run calls).answer call =
          if built (run calls).events ≠ [] then .error .alreadyBuilt
          else if lengthLimit < sequence.length then .error (.tooLong sequence.length)
          else if sequence ∈ keys (taken (run calls).events) then .error .duplicate
          else .ok none) ∧
      (∀ (call : Call) (fault : Fault) (later : List Call) (next : Call),
        (run calls).answer call = .error fault →
          (run (calls ++ call :: later)).answer next = (run (calls ++ later)).answer next) ∧
      (∀ sharing : Sharing,
        (taken (run calls).events = [] →
          (run calls).answer (.build sharing) = .error .nothingAdded) ∧
        (taken (run calls).events ≠ [] → ∃ trie,
          (run calls).answer (.build sharing) = .ok (some trie) ∧
            ∀ made ∈ built (run calls).events, made.2 = trie)) ∧
      ∀ (others : List Call) (sharing other_sharing : Sharing) (trie other : PackedTrie),
        (run calls).answer (.build sharing) = .ok (some trie) →
          (run others).answer (.build other_sharing) = .ok (some other) →
            (∀ entry, entry ∈ taken (run calls).events ↔ entry ∈ taken (run others).events) →
              firstSharing (run calls).events sharing =
                firstSharing (run others).events other_sharing → trie = other := by
  have consistent := consistent_run calls
  refine ⟨fun call sequence value adds => ?_, fun call fault later next refused =>
    answer_skip refused later next, fun sharing => ?_, ?_⟩
  · rw [answer_of_entry _ adds]
    rcases add_eq consistent sequence value with ⟨is_built, refused⟩ | ⟨nothing, long, refused⟩ |
      ⟨nothing, short, old, refused⟩ | ⟨nothing, short, new, more, added, _⟩
    · rw [refused, if_pos is_built]
      rfl
    · rw [refused, if_neg (not_not.2 nothing), if_pos long]
      rfl
    · rw [refused, if_neg (not_not.2 nothing), if_neg (Nat.not_lt.2 short), if_pos old]
      rfl
    · rw [added, if_neg (not_not.2 nothing), if_neg (Nat.not_lt.2 short), if_neg new]
      rfl
  · rcases build_eq consistent sharing with
      ⟨none_taken, _, refused⟩ | ⟨some_taken, trie, answered, all, _⟩
    · refine ⟨fun _ => ?_, (absurd none_taken ·)⟩
      rw [answer, perform, refused]
      rfl
    · refine ⟨(absurd · some_taken), fun _ => ⟨trie, ?_, all⟩⟩
      rw [answer, perform, answered]
      rfl
  · intro others sharing other_sharing trie other answered other_answered same first
    have other_consistent := consistent_run others
    rw [answer_build consistent answered, answer_build other_consistent other_answered, first,
      entries_eq consistent other_consistent same]

/-- Neither the order of two entries nor a refused one nor what was cleared can be told. -/
theorem answers_of_run_shuffled :
    ∃ trie, (run [.add "b" 2, .addUnits [97] 1, .add "b" 3]).answer (.build .closings) =
        .ok (some trie) ∧
      (run [.addUnits [99] 7, .build .everything, .clear, .addUnits [97] 1, .add "b" 2]).answer
        (.build .closings) = .ok (some trie) := by
  obtain ⟨_, _, builds, same⟩ := answers_of_run [.add "b" 2, .addUnits [97] 1, .add "b" 3]
  obtain ⟨_, _, other_builds, _⟩ := answers_of_run
    [.addUnits [99] 7, .build .everything, .clear, .addUnits [97] 1, .add "b" 2]
  have taken_first : taken (run [.add "b" 2, .addUnits [97] 1, .add "b" 3]).events =
      [([97], 1), ([98], 2)] := by decide
  have taken_second : taken (run [.addUnits [99] 7, .build .everything, .clear, .addUnits [97] 1,
      .add "b" 2]).events = [([98], 2), ([97], 1)] := by decide
  obtain ⟨trie, answered, _⟩ := (builds .closings).2 (by rw [taken_first]; decide)
  obtain ⟨other, other_answered, _⟩ := (other_builds .closings).2 (by rw [taken_second]; decide)
  obtain rfl := same _ .closings .closings trie other answered other_answered
    (by simp [taken_first, taken_second, or_comm]) rfl
  exact ⟨trie, answered, other_answered⟩

end Session

end SentenceBreaks.Trie.Draft
