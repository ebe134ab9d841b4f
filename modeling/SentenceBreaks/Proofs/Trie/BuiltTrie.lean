import SentenceBreaks.Proofs.Trie.DraftEntries
import SentenceBreaks.Proofs.Trie.LayoutOfEntries
import SentenceBreaks.Proofs.Trie.ProbeFollows
import SentenceBreaks.Proofs.Trie.SerialWriting

/-! Tries built from entries. The units of such a trie are the form of a node that stands for the
entries, and a probe that follows a sequence from the root tells where it stands among them. -/

namespace SentenceBreaks.Trie

namespace PackedTrie

variable {sharing : Sharing} {entries : List Entry} {trie : PackedTrie}

/-- The units of a trie are those of a node for some entries, in ascending order. -/
def Represents (trie : PackedTrie) (entries : List Entry) : Prop :=
  ∃ ascending, NodeForm ascending trie.units.toList ∧ ascending.Perm entries ∧
    Ascending.Sorted Prod.fst ascending

/-- No jump in the trie of some entries is longer than what its units can say: two units hold less
than 2 ^ 30, and three less than 2 ^ 32. -/
def JumpsFit (sharing : Sharing) (entries : List Entry) : Prop :=
  ∀ draft, Draft.empty.addAll entries = .ok draft →
    ∀ jump ∈ jumps sharing draft.entries, jump < 2 ^ 32

theorem layout_faithful (some_entry : entries ≠ []) (sorted : Ascending.Sorted Prod.fst entries) :
    (layout sharing entries).entries = entries ∧ (layout sharing entries).Sound := by
  rw [← Layout.entries_untag, ← Layout.sound_untag, layout, Sharing.untag_number]
  exact Layout.ofEntries_spec some_entry sorted

theorem ofEntries_form (some_entry : entries ≠ []) (sorted : Ascending.Sorted Prod.fst entries)
    (fits : ∀ jump ∈ jumps sharing entries, jump < 2 ^ 32) :
    NodeForm entries (ofEntries sharing entries).units.toList := by
  obtain ⟨same, sound⟩ := @layout_faithful sharing entries some_entry sorted
  obtain ⟨after, spans⟩ := ofEntries_spans sharing entries fits
  have form := nodeForm_of_spans spans sound
  rwa [same] at form

/-- Distinct sequences within the length limit make a trie, whatever order they come in. It is that
of the ascending entries, in either way of sharing. -/
theorem ofList_ok (some_entry : entries ≠ []) (distinct : (keys entries).Nodup)
    (short : ∀ key ∈ keys entries, key.length ≤ lengthLimit) :
    ∃ ascending, Draft.empty.addAll entries = .ok ⟨ascending, none⟩ ∧ ascending ≠ [] ∧
      ascending.Perm entries ∧ Ascending.Sorted Prod.fst ascending ∧
      ∀ sharing, ofList sharing entries = .ok (ofEntries sharing ascending) := by
  obtain ⟨ascending, added, perm, sorted⟩ := Draft.addAll_empty
    (fun entry member => short _ (List.mem_map.2 ⟨entry, member, rfl⟩)) distinct
  have some_ascending : ascending ≠ [] := by
    rintro rfl
    exact some_entry perm.nil_eq.symm
  refine ⟨ascending, added, some_ascending, perm, sorted, fun sharing => ?_⟩
  have unsealed : List.isEmpty ascending = false := by
    simpa using some_ascending
  unfold ofList
  rw [added]
  simp [bind, Except.bind, Draft.build, unsealed, pure, Except.pure]

theorem ofList_represents (some_entry : entries ≠ []) (distinct : (keys entries).Nodup)
    (short : ∀ key ∈ keys entries, key.length ≤ lengthLimit) (fits : JumpsFit sharing entries) :
    ∃ trie, ofList sharing entries = .ok trie ∧ trie.Represents entries := by
  obtain ⟨ascending, added, some_ascending, perm, sorted, built⟩ :=
    ofList_ok some_entry distinct short
  exact ⟨ofEntries sharing ascending, built sharing, ascending,
    ofEntries_form some_ascending sorted (fits _ added), perm, sorted⟩

/-- A trie was built from some entries in either way of sharing, and its units can say its jumps. -/
def BuiltFrom (trie : PackedTrie) (entries : List Entry) : Prop :=
  ∃ sharing, ofList sharing entries = .ok trie ∧ JumpsFit sharing entries

/-- A build succeeds only for distinct sequences within the length limit. -/
theorem BuiltFrom.represents (built : trie.BuiltFrom entries) :
    trie.Represents entries ∧ (keys entries).Nodup := by
  obtain ⟨sharing, built, fits⟩ := built
  have some_entry : entries ≠ [] := by
    rintro rfl
    contradiction
  cases added : Draft.empty.addAll entries with
  | error fault =>
      rw [ofList, added] at built
      contradiction
  | ok draft =>
      obtain ⟨short, distinct⟩ := Draft.addAll_eq_ok added List.Pairwise.nil
      have distinct : (keys entries).Nodup := by
        simpa [Draft.empty, keys] using distinct
      obtain ⟨same, found, represents⟩ := ofList_represents some_entry distinct
        (List.forall_mem_map.2 short) fits
      rw [built, Except.ok.injEq] at found
      subst found
      exact ⟨represents, distinct⟩

namespace Represents

theorem sits (represents : trie.Represents entries) :
    ∃ ascending, Sits trie.units ascending (.atRoot 0) ∧ ascending.Perm entries := by
  obtain ⟨ascending, form, perm, _⟩ := represents
  exact ⟨ascending, .node List.drop_zero form, perm⟩

end Represents

/-- A fresh probe that is fed a sequence unit by unit stays inside the units. It ends outside where
no stored sequence begins with it, within where longer ones do and it is not stored itself, and
passes through or ends at a stored one depending on whether a longer one begins with it. -/
theorem ofList_follows (sharing : Sharing) (entries : List Entry) (some_entry : entries ≠ [])
    (distinct : (keys entries).Nodup) (short : ∀ key ∈ keys entries, key.length ≤ lengthLimit)
    (fits : JumpsFit sharing entries) :
    ∃ trie, ofList sharing entries = .ok trie ∧ ∀ sequence : List UInt16,
      ∃ start standing probe, trie.standing = some start ∧
        Probe.follow trie.units sequence (start, .atRoot 0) = some (standing, probe) ∧
        probe.standing trie.units = some standing ∧
        (standing = .outside ↔ ¬ ∃ key ∈ keys entries, sequence <+: key) ∧
        (standing = .within ↔ sequence ∉ keys entries ∧
          ∃ key ∈ keys entries, sequence <+: key ∧ sequence ≠ key) ∧
        (standing = .passing ↔ sequence ∈ keys entries ∧
          ∃ key ∈ keys entries, sequence <+: key ∧ sequence ≠ key) ∧
        (standing = .ending ↔ sequence ∈ keys entries ∧
          ¬ ∃ key ∈ keys entries, sequence <+: key ∧ sequence ≠ key) ∧
        probe.value trie.units = some (entries.lookup sequence) ∧
        trie.lookup sequence = some (entries.lookup sequence) := by
  obtain ⟨trie, built, represents⟩ := ofList_represents some_entry distinct short fits
  obtain ⟨ascending, sits, perm⟩ := represents.sits
  have ascending_distinct : (keys ascending).Nodup := (perm.map Prod.fst).nodup_iff.2 distinct
  refine ⟨trie, built, fun sequence => ?_⟩
  obtain ⟨probe, fed, moved, _⟩ := Probe.feeds_follow sequence sits
  obtain ⟨outside, within, passing, ending⟩ := Standing.ofRest_remainder sequence ascending
  have member : sequence ∈ keys ascending ↔ sequence ∈ keys entries := (perm.map Prod.fst).mem_iff
  rw [exists_key_perm perm] at outside within passing ending
  rw [member] at within passing ending
  have found := Probe.value_of_sits moved
  have looked := Probe.lookup_of_sits sequence sits
  rw [lookup_remainder, List.append_nil, lookup_perm ascending_distinct perm] at found
  rw [lookup_perm ascending_distinct perm] at looked
  exact ⟨_, _, probe, Probe.standing_of_sits sits, fed, Probe.standing_of_sits moved, outside,
    within, passing, ending, found, looked⟩

/-- Where all sequences close right behind a branch, there are no jumps at all. -/
theorem jumpsFit_closings :
    JumpsFit .everything [([97, 98], 2), ([97], 1), ([97, 99], 3)] := by
  intro draft added
  have ascending : Draft.empty.addAll [([97, 98], 2), ([97], 1), ([97, 99], 3)] =
      .ok ⟨[([97], 1), ([97, 98], 2), ([97, 99], 3)], none⟩ := rfl
  rw [ascending, Except.ok.injEq] at added
  subst added
  have shape : Layout.ofEntries [([97], 1), ([97, 98], 2), ([97, 99], 3)] =
      .run () none [97] (.fork () (some 1) (.listClosing () (.edgeClosing 98 2 .done) 99 3)) := by
    simp [Layout.ofEntries, Layout.node, Layout.node.continuing, Layout.node.follow, Layout.common,
      Layout.groups, Layout.branch, Layout.listOf, Layout.edgesOf, Layout.runs, Layout.pieces,
      Layout.pieces.extend, Layout.listLimit]
  simp [jumps, layout, shape, Sharing.number, Serial.jumps, Serial.armJumps, Layout.arms]

theorem ofList_follows_prefix :
    ∃ trie, ofList .everything [([97, 98], 2), ([97], 1), ([97, 99], 3)] = .ok trie ∧
      ∃ start probe, Probe.follow trie.units [97] (start, .atRoot 0) = some (.passing, probe) ∧
        probe.value trie.units = some (some 1) := by
  obtain ⟨trie, built, follows⟩ := ofList_follows .everything
    [([97, 98], 2), ([97], 1), ([97, 99], 3)] (by decide) (by decide) (by decide)
    jumpsFit_closings
  obtain ⟨start, standing, probe, _, fed, _, _, _, passing, _, found, _⟩ := follows [97]
  obtain rfl := passing.2 (by decide)
  exact ⟨trie, built, start, probe, fed, found⟩

end PackedTrie

end SentenceBreaks.Trie
