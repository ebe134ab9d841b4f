import SentenceBreaks.Trie.Packed
import Mathlib.Data.Nat.Log

/-! Reading ends, whatever the units are. A reader works in turns. Each turn leads further on in the
units or makes what is left to do smaller, so a run of turns is finite: it comes to an answer, or to
a turn that fails since the units end there. A probe takes at most 23 turns for a unit. -/

namespace SentenceBreaks.Trie

section

variable {σ ω : Type} {turn : σ → Option (σ ⊕ ω)}

/-- So many turns from a state come to an answer, or to none if the last of them fails. A turn
goes on to another state or gives the answer. -/
inductive Turns (turn : σ → Option (σ ⊕ ω)) : σ → Nat → Option ω → Prop
  | fails {state : σ} (failed : turn state = none) : Turns turn state 1 none
  | answers {state : σ} {answer : ω} (given : turn state = some (.inr answer)) :
      Turns turn state 1 (some answer)
  | onward {state next : σ} {count : Nat} {answer : Option ω}
      (goesOn : turn state = some (.inl next)) (later : Turns turn next count answer) :
      Turns turn state (count + 1) answer

/-- If each turn leaves less to do and keeps the outcome, the turns come to the outcome. -/
theorem turns_of_lowers (outcome : σ → Option ω) (effort : σ → Nat)
    (keeps : ∀ state, outcome state = (turn state).bind (Sum.elim outcome some))
    (lowers : ∀ state next, turn state = some (.inl next) → effort next < effort state)
    (state : σ) : ∃ count ≤ effort state + 1, Turns turn state count (outcome state) := by
  induction bound : effort state using Nat.strongRecOn generalizing state with
  | ind _ ih =>
      subst bound
      have kept := keeps state
      cases taken : turn state with
      | none =>
          rw [taken] at kept
          rw [kept]
          exact ⟨1, Nat.le_add_left 1 _, .fails taken⟩
      | some result =>
          rw [taken] at kept
          rw [kept]
          cases result with
          | inr answer => exact ⟨1, Nat.le_add_left 1 _, .answers taken⟩
          | inl next =>
              have less := lowers state next taken
              obtain ⟨count, few, later⟩ := ih _ less next rfl
              exact ⟨count + 1, by omega, .onward taken later⟩

/-- What each turn keeps also holds of the state from which the answer is given. -/
theorem last_of_turns {count : Nat} {answer : ω} (Keeps : σ → Prop)
    (step : ∀ state next, Keeps state → turn state = some (.inl next) → Keeps next)
    {state : σ} (start : Keeps state) (turns : Turns turn state count (some answer)) :
    ∃ last, Keeps last ∧ turn last = some (.inr answer) := by
  generalize same : some answer = result at turns
  induction turns with
  | fails => contradiction
  | answers given =>
      cases same
      exact ⟨_, start, given⟩
  | onward goesOn _ ih => exact ih (step _ _ start goesOn) same

end

namespace Codec

variable {units : Array UInt16} {position : Nat}

theorem getElem?_of_room (room : position < units.size) : ∃ unit, units[position]? = some unit :=
  ⟨units[position], Array.getElem?_eq_getElem room⟩

/-- Three units are enough for any reader. -/
theorem readWide_of_room (room : position + 2 < units.size) (short middle : UInt16 → Prop)
    [DecidablePred short] [DecidablePred middle] (one : UInt16 → Nat)
    (two three : UInt16 → UInt16 → Nat) :
    ∃ n after, readWide short middle one two three units position = some (n, after) ∧
      after ≤ position + 3 := by
  obtain ⟨lead, first⟩ := getElem?_of_room (Nat.lt_of_le_of_lt (Nat.le_add_right _ 2) room)
  obtain ⟨high, second⟩ := getElem?_of_room (Nat.lt_of_succ_lt room)
  obtain ⟨low, third⟩ := getElem?_of_room room
  simp only [readWide, first, second, third, Option.bind_eq_bind, Option.bind_some]
  split
  · exact ⟨_, _, rfl, by omega⟩
  · split
    · exact ⟨_, _, rfl, by omega⟩
    · exact ⟨_, _, rfl, by omega⟩

theorem readNumber_of_room (room : position + 2 < units.size) :
    ∃ n after, readNumber units position = some (n, after) ∧ after ≤ position + 3 :=
  readWide_of_room room _ _ _ _ _

theorem readCarried_of_room (room : position + 2 < units.size) :
    ∃ n after, readCarried units position = some (n, after) ∧ after ≤ position + 3 :=
  readWide_of_room room _ _ _ _ _

theorem readJump_of_room (room : position + 2 < units.size) :
    ∃ n after, readJump units position = some (n, after) ∧ after ≤ position + 3 :=
  readWide_of_room room _ _ _ _ _

end Codec

namespace Probe

variable {units : Array UInt16} {unit : UInt16} {probe : Probe} {width position start : Nat}

/-- How far a probe has come on the way from a position to what follows a unit. -/
inductive Stage
  | node (position : Nat)
  | body (kind position : Nat)
  | run (length position : Nat)
  | branch (width position : Nat)
  | edges (width position : Nat)
  | landing (position literals : Nat)
  | left

/-- The first stage when a probe is fed. -/
def stage (probe : Probe) : Stage :=
  match probe.position with
  | none => .left
  | some position => if 0 < probe.literals then .run probe.literals position else .node position

/-- Feeding a unit, cut into turns: a node, a split and an edge take one turn each. -/
def turn (units : Array UInt16) (unit : UInt16) (probe : Probe) :
    Stage → Option (Stage ⊕ (Standing × Probe))
  | .left => some (.inr probe.leave)
  | .landing position literals => (probe.land units position literals).map .inr
  | .node position => do
      let lead ← units[position]?
      match Standing.ofLead lead with
      | .ending => return .inl .left
      | .passing =>
          let (_, after) ← Codec.readCarried units position
          return .inl (.body (lead.toNat % Codec.valueLead) after)
      | _ => return .inl (.body lead.toNat (position + 1))
  | .body kind position =>
      if Codec.runKind ≤ kind then some (.inl (.run (kind - Codec.runKind + 1) position))
      else if kind = 0 then do
        return .inl (.branch ((← units[position]?).toNat + 1) (position + 1))
      else some (.inl (.branch (kind + 1) position))
  | .run length position => do
      if unit = (← units[position]?) then return .inl (.landing (position + 1) (length - 1))
      else return .inl .left
  | .branch width position =>
      if Layout.listLimit < width then do
        let middle ← units[position]?
        let (distance, after) ← Codec.readJump units (position + 1)
        if unit < middle then return .inl (.branch (width / 2) (after + distance))
        else return .inl (.branch (width - width / 2) after)
      else some (.inl (.edges width position))
  | .edges 0 _ => some (.inl .left)
  | .edges 1 position => do
      if unit = (← units[position]?) then return .inl (.landing (position + 1) 0)
      else return .inl .left
  | .edges (width + 2) position => do
      let candidate ← units[position]?
      let lead ← units[position + 1]?
      if unit = candidate && Codec.isClosing lead then return .inl (.landing (position + 1) 0)
      let (distance, after) ← Codec.readNumber units (position + 1)
      if unit = candidate then return .inl (.landing (after + distance) 0)
      else return .inl (.edges (width + 1) after)

/-- What a probe answers where a search has led it, if it has led it anywhere. -/
def arrive (units : Array UInt16) (probe : Probe) : Option Nat → Option (Standing × Probe)
  | some target => probe.land units target 0
  | none => some probe.leave

/-- What feeding comes to from a stage on. -/
def outcome (units : Array UInt16) (unit : UInt16) (probe : Probe) :
    Stage → Option (Standing × Probe)
  | .left => some probe.leave
  | .landing position literals => probe.land units position literals
  | .node position => do
      let lead ← units[position]?
      match Standing.ofLead lead with
      | .ending => return probe.leave
      | .passing =>
          let (_, after) ← Codec.readCarried units position
          probe.followKind units unit (lead.toNat % Codec.valueLead) after
      | _ => probe.followKind units unit lead.toNat (position + 1)
  | .body kind position => probe.followKind units unit kind position
  | .run length position => probe.followRun units unit position length
  | .branch width position => probe.followBranch units unit width position
  | .edges width position => (scan units unit width position).bind (probe.arrive units)

theorem feed_eq_outcome : probe.feed units unit = probe.outcome units unit probe.stage := by
  unfold feed stage
  cases probe.position with
  | none => rfl
  | some position =>
      dsimp only
      split
      · rfl
      · rfl

theorem followBranch_eq_arrive (width position : Nat) :
    probe.followBranch units unit width position =
      (search units unit width position).bind (probe.arrive units) := by
  unfold followBranch
  cases search units unit width position with
  | none => rfl
  | some target => cases target <;> rfl

/-- A turn keeps what feeding comes to. -/
theorem outcome_turn (stage : Stage) : probe.outcome units unit stage =
    (probe.turn units unit stage).bind (Sum.elim (probe.outcome units unit) some) := by
  cases stage with
  | left => rfl
  | landing position literals =>
      simp only [outcome, turn]
      cases probe.land units position literals <;> rfl
  | node position =>
      simp only [outcome, turn]
      cases units[position]? with
      | none => rfl
      | some lead =>
          simp only [bind, Option.bind]
          cases Standing.ofLead lead with
          | passing => cases Codec.readCarried units position <;> rfl
          | _ => rfl
  | body kind position =>
      simp only [outcome, turn, followKind]
      split
      · rfl
      · split
        · cases units[position]? <;> rfl
        · rfl
  | run length position =>
      simp only [outcome, turn, followRun]
      cases units[position]? with
      | none => rfl
      | some next =>
          simp only [bind, Option.bind]
          split <;> rfl
  | branch width position =>
      simp only [outcome, turn, followBranch_eq_arrive]
      rw [search]
      split
      · cases units[position]? with
        | none => rfl
        | some middle =>
            cases Codec.readJump units (position + 1) with
            | none => rfl
            | some jump =>
                simp only [Option.bind_eq_bind, Option.bind_some]
                split
                · exact (followBranch_eq_arrive _ _).symm
                · exact (followBranch_eq_arrive _ _).symm
      · rfl
  | edges width position =>
      match width with
      | 0 => rfl
      | 1 =>
          simp only [outcome, turn, scan]
          cases units[position]? with
          | none => rfl
          | some last =>
              simp only [Option.bind_eq_bind, Option.bind_some]
              split <;> rfl
      | width + 2 =>
          simp only [outcome, turn, scan]
          cases units[position]? with
          | none => rfl
          | some candidate =>
              cases units[position + 1]? with
              | none => rfl
              | some lead =>
                  simp only [Option.bind_eq_bind, Option.bind_some]
                  split
                  · rfl
                  · cases Codec.readNumber units (position + 1) with
                    | none => rfl
                    | some read =>
                        simp only [Option.bind_some]
                        split <;> rfl

/-- What a turn can do. No stage is behind the one before it, and a node, a unit of a run, a split
and an edge are left behind. -/
inductive Stage.Takes (units : Array UInt16) (probe : Probe) :
    Stage → Stage ⊕ (Standing × Probe) → Prop
  | node {position kind after : Nat} (further : position < after) :
      Takes units probe (.node position) (.inl (.body kind after))
  | run {kind length position : Nat} :
      Takes units probe (.body kind position) (.inl (.run length position))
  | branch {kind position width after : Nat} (narrow : width ≤ 0x10000)
      (further : position ≤ after) :
      Takes units probe (.body kind position) (.inl (.branch width after))
  | half {width half position after : Nat} (wide : Layout.listLimit < width)
      (part : half ≤ width - width / 2) (further : position < after) :
      Takes units probe (.branch width position) (.inl (.branch half after))
  | list {width position : Nat} (narrow : width ≤ Layout.listLimit) :
      Takes units probe (.branch width position) (.inl (.edges width position))
  | passed {width position after : Nat} (further : position < after) :
      Takes units probe (.edges (width + 2) position) (.inl (.edges (width + 1) after))
  | edge {width position after literals : Nat} (further : position < after) :
      Takes units probe (.edges width position) (.inl (.landing after literals))
  | literal {length position literals : Nat} :
      Takes units probe (.run length position) (.inl (.landing (position + 1) literals))
  | closed {position : Nat} : Takes units probe (.node position) (.inl .left)
  | strays {length position : Nat} : Takes units probe (.run length position) (.inl .left)
  | misses {width position : Nat} : Takes units probe (.edges width position) (.inl .left)
  | leaves : Takes units probe .left (.inr probe.leave)
  | lands {position literals : Nat} {answer : Standing × Probe}
      (landed : probe.land units position literals = some answer) :
      Takes units probe (.landing position literals) (.inr answer)

theorem takes_of_turn {result : Stage ⊕ (Standing × Probe)} (stage : Stage)
    (taken : probe.turn units unit stage = some result) : stage.Takes units probe result := by
  cases stage with
  | left =>
      cases taken
      exact .leaves
  | landing position literals =>
      obtain ⟨answer, landed, rfl⟩ := Option.map_eq_some_iff.1 taken
      exact .lands landed
  | node position =>
      obtain ⟨lead, _, taken⟩ := Option.bind_eq_some_iff.1 taken
      split at taken
      · cases taken
        exact .closed
      · obtain ⟨carried, read, taken⟩ := Option.bind_eq_some_iff.1 taken
        cases taken
        exact .node (Codec.readCarried_advances read).2
      · cases taken
        exact .node (Nat.lt_succ_self position)
  | body kind position =>
      simp only [turn] at taken
      split at taken
      · cases taken
        exact .run
      next low =>
        split at taken
        · obtain ⟨count, _, taken⟩ := Option.bind_eq_some_iff.1 taken
          cases taken
          exact .branch count.toNat_lt (Nat.le_succ position)
        · cases taken
          refine .branch ?_ (Nat.le_refl position)
          unfold Codec.runKind at low
          omega
  | run length position =>
      obtain ⟨literal, _, taken⟩ := Option.bind_eq_some_iff.1 taken
      split at taken
      · cases taken
        exact .literal
      · cases taken
        exact .strays
  | branch width position =>
      simp only [turn] at taken
      split at taken
      next wide =>
        obtain ⟨middle, _, taken⟩ := Option.bind_eq_some_iff.1 taken
        obtain ⟨⟨distance, after⟩, read, taken⟩ := Option.bind_eq_some_iff.1 taken
        have further := (Codec.readJump_advances read).2
        split at taken
        · cases taken
          exact .half wide (by omega) (by omega)
        · cases taken
          exact .half wide (Nat.le_refl _) (by omega)
      next narrow =>
        cases taken
        exact .list (Nat.not_lt.1 narrow)
  | edges width position =>
      match width with
      | 0 =>
          cases taken
          exact .misses
      | 1 =>
          obtain ⟨last, _, taken⟩ := Option.bind_eq_some_iff.1 taken
          split at taken
          · cases taken
            exact .edge (Nat.lt_succ_self position)
          · cases taken
            exact .misses
      | width + 2 =>
          obtain ⟨candidate, _, taken⟩ := Option.bind_eq_some_iff.1 taken
          obtain ⟨lead, _, taken⟩ := Option.bind_eq_some_iff.1 taken
          split at taken
          · cases taken
            exact .edge (Nat.lt_succ_self position)
          · obtain ⟨⟨distance, after⟩, read, taken⟩ := Option.bind_eq_some_iff.1 taken
            have further := (Codec.readNumber_advances read).2
            dsimp only at taken
            split at taken
            · cases taken
              exact .edge (by omega)
            · cases taken
              exact .passed (by omega)

/-- Where a turn reads, if it reads at all. -/
def Stage.position? : Stage → Option Nat
  | .node position => some position
  | .body _ position => some position
  | .run _ position => some position
  | .branch _ position => some position
  | .edges _ position => some position
  | .landing position _ => some position
  | .left => none

/-- Four units are enough for any turn. -/
theorem turn_of_room (stage : Stage)
    (room : ∀ position ∈ stage.position?, position + 3 < units.size) :
    ∃ result, probe.turn units unit stage = some result := by
  have first : ∀ position, position + 3 < units.size → ∃ next, units[position]? = some next :=
    fun position room => Codec.getElem?_of_room (Nat.lt_of_le_of_lt (Nat.le_add_right _ 3) room)
  cases stage with
  | left => exact ⟨_, rfl⟩
  | landing position literals =>
      obtain ⟨lead, found⟩ := first position (room position rfl)
      simp only [turn, land, standing, found]
      split
      · exact ⟨_, rfl⟩
      · exact ⟨_, rfl⟩
  | node position =>
      obtain ⟨lead, found⟩ := first position (room position rfl)
      obtain ⟨n, after, read, _⟩ :=
        Codec.readCarried_of_room (Nat.lt_of_succ_lt (room position rfl))
      simp only [turn, found, read, Option.bind_eq_bind, Option.bind_some]
      split
      · exact ⟨_, rfl⟩
      · exact ⟨_, rfl⟩
      · exact ⟨_, rfl⟩
  | body kind position =>
      obtain ⟨count, found⟩ := first position (room position rfl)
      simp only [turn, found, Option.bind_eq_bind, Option.bind_some]
      split
      · exact ⟨_, rfl⟩
      · split
        · exact ⟨_, rfl⟩
        · exact ⟨_, rfl⟩
  | run length position =>
      obtain ⟨next, found⟩ := first position (room position rfl)
      simp only [turn, found, Option.bind_eq_bind, Option.bind_some]
      split
      · exact ⟨_, rfl⟩
      · exact ⟨_, rfl⟩
  | branch width position =>
      obtain ⟨middle, found⟩ := first position (room position rfl)
      have behind : position + 1 + 2 < units.size := room position rfl
      obtain ⟨distance, after, read, _⟩ := Codec.readJump_of_room behind
      simp only [turn, found, read, Option.bind_eq_bind, Option.bind_some]
      split
      · split
        · exact ⟨_, rfl⟩
        · exact ⟨_, rfl⟩
      · exact ⟨_, rfl⟩
  | edges width position =>
      obtain ⟨candidate, found⟩ := first position (room position rfl)
      have behind : position + 1 + 2 < units.size := room position rfl
      obtain ⟨lead, second⟩ :=
        Codec.getElem?_of_room (Nat.lt_of_le_of_lt (Nat.le_add_right _ 2) behind)
      obtain ⟨distance, after, read, _⟩ := Codec.readNumber_of_room behind
      match width with
      | 0 => exact ⟨_, rfl⟩
      | 1 =>
          simp only [turn, found, Option.bind_eq_bind, Option.bind_some]
          split
          · exact ⟨_, rfl⟩
          · exact ⟨_, rfl⟩
      | width + 2 =>
          simp only [turn, found, second, read, Option.bind_eq_bind, Option.bind_some]
          split
          · exact ⟨_, rfl⟩
          · split
            · exact ⟨_, rfl⟩
            · exact ⟨_, rfl⟩

/-- A turn only fails when one of the four units from its place on is beyond the end. -/
theorem short_of_turn (stage : Stage) (failed : probe.turn units unit stage = none) :
    ∃ position ∈ stage.position?, units.size ≤ position + 3 := by
  by_contra within
  have room : ∀ position ∈ stage.position?, position + 3 < units.size :=
    fun position member => Nat.lt_of_not_le fun short => within ⟨position, member, short⟩
  obtain ⟨result, taken⟩ := turn_of_room stage room
  cases failed.symm.trans taken

/-- How many turns may follow: one for each edge of a list, and one for each time that a branch
splits on the way to a list. -/
def Stage.effort : Stage → Nat
  | .left => 0
  | .landing _ _ => 0
  | .run _ _ => 1
  | .edges width _ => max width 1
  | .branch width _ => Nat.clog 2 ((width + 4) / 5) + 6
  | .body _ _ => 21
  | .node _ => 22

/-- Either half of a wide branch splits less often. -/
theorem clog_half {half : Nat} (wide : Layout.listLimit < width) (part : half ≤ width - width / 2) :
    Nat.clog 2 ((half + 4) / 5) < Nat.clog 2 ((width + 4) / 5) := by
  unfold Layout.listLimit at wide
  rw [Nat.clog_of_two_le (n := (width + 4) / 5) (by decide) (by omega)]
  exact Nat.lt_succ_of_le (Nat.clog_mono_right 2 (by omega))

theorem clog_le (narrow : width ≤ 0x10000) : Nat.clog 2 ((width + 4) / 5) ≤ 14 := by
  apply Nat.clog_le_of_le_pow
  omega

theorem Stage.Takes.effort_lt {stage next : Stage} (takes : stage.Takes units probe (.inl next)) :
    next.effort < stage.effort := by
  cases takes with
  | branch narrow further =>
      have splits := clog_le narrow
      simp only [effort]
      omega
  | half wide part further =>
      have splits := clog_half wide part
      simp only [effort]
      omega
  | list narrow =>
      unfold Layout.listLimit at narrow
      simp only [effort]
      omega
  | _ =>
      simp only [effort]
      omega

/-- The stages from which a probe can only land beyond a position. -/
def Stage.Leads (start : Nat) : Stage → Prop
  | .node position => start ≤ position
  | .run _ position => start ≤ position
  | .body _ position => start < position
  | .branch _ position => start < position
  | .edges _ position => start < position
  | .landing position _ => start < position
  | .left => True

theorem Stage.Takes.leads {stage next : Stage} (takes : stage.Takes units probe (.inl next))
    (leads : stage.Leads start) : next.Leads start := by
  cases takes with
  | closed => trivial
  | strays => trivial
  | misses => trivial
  | _ =>
      simp only [Stage.Leads] at leads ⊢
      omega

/-- What makes a probe stand where it does. -/
inductive Stands (units : Array UInt16) (probe : Probe) : Standing → Prop
  | stopped (place : probe.position = none) : Stands units probe .outside
  | inRun {position : Nat} (place : probe.position = some position)
      (coming : 0 < probe.literals) : Stands units probe .within
  | atNode {position : Nat} {lead : UInt16} (place : probe.position = some position)
      (free : ¬0 < probe.literals) (found : units[position]? = some lead) :
      Stands units probe (.ofLead lead)

theorem stands_of_standing {standing : Standing} (stands : probe.standing units = some standing) :
    probe.Stands units standing := by
  unfold Probe.standing at stands
  cases place : probe.position with
  | none =>
      rw [place] at stands
      cases stands
      exact .stopped place
  | some position =>
      rw [place] at stands
      dsimp only at stands
      split at stands
      next coming =>
        cases stands
        exact .inRun place coming
      next free =>
        obtain ⟨lead, found, rfl⟩ := Option.map_eq_some_iff.1 stands
        exact .atNode place free found

theorem ofLead_ne_outside (lead : UInt16) : Standing.ofLead lead ≠ .outside := by
  unfold Standing.ofLead
  split
  · nofun
  · split <;> nofun

/-- Where a probe stands is outside just when it has no position. -/
theorem outside_iff_of_standing {standing : Standing}
    (stands : probe.standing units = some standing) :
    standing = .outside ↔ probe.position = none := by
  cases stands_of_standing stands with
  | stopped place => simp [place]
  | inRun place => simp [place]
  | atNode place => simp [place, ofLead_ne_outside]

theorem land_eq_some {position literals : Nat} {standing : Standing} {moved : Probe}
    (landed : probe.land units position literals = some (standing, moved)) :
    moved = ⟨probe.root, some position, literals⟩ ∧ moved.standing units = some standing := by
  obtain ⟨_, stands, same⟩ := Option.map_eq_some_iff.1 landed
  obtain ⟨rfl, rfl⟩ := Prod.mk.inj same
  exact ⟨rfl, stands⟩

/-- A probe stops matching, or it has come beyond a position. -/
def Advanced (start : Nat) (answer : Standing × Probe) : Prop :=
  answer.1 = .outside ∧ answer.2.position = none ∨
    answer.1 ≠ .outside ∧ ∃ stop ∈ answer.2.position, start < stop

theorem Stage.Takes.advanced {stage : Stage} {answer : Standing × Probe}
    (takes : stage.Takes units probe (.inr answer)) (leads : stage.Leads start) :
    Advanced start answer := by
  cases takes with
  | leaves => exact Or.inl ⟨rfl, rfl⟩
  | @lands position literals answer landed =>
      obtain ⟨place, stands⟩ := land_eq_some landed
      refine Or.inr ⟨?_, position, by rw [place]; rfl, leads⟩
      rw [Ne, outside_iff_of_standing stands, place]
      nofun

theorem advanced_of_turns {stage : Stage} {count : Nat} {answer : Standing × Probe}
    (turns : Turns (probe.turn units unit) stage count (some answer)) (leads : stage.Leads start) :
    Advanced start answer := by
  obtain ⟨last, leads, given⟩ := last_of_turns (Stage.Leads start)
    (fun state next leads onward => (takes_of_turn state onward).leads leads) leads turns
  exact (takes_of_turn last given).advanced leads

theorem leads_stage (place : probe.position = some start) : probe.stage.Leads start := by
  unfold stage
  rw [place]
  dsimp only
  split
  · exact Nat.le_refl start
  · exact Nat.le_refl start

/-- The turns that feeding a unit takes come to what feeding answers. -/
theorem turns_feed (units : Array UInt16) (unit : UInt16) (probe : Probe) :
    ∃ count ≤ 23, Turns (probe.turn units unit) probe.stage count (probe.feed units unit) := by
  obtain ⟨count, few, turns⟩ := turns_of_lowers (probe.outcome units unit) Stage.effort
    outcome_turn (fun stage next onward => (takes_of_turn stage onward).effort_lt) probe.stage
  rw [← feed_eq_outcome] at turns
  refine ⟨count, Nat.le_trans few (Nat.succ_le_succ ?_), turns⟩
  unfold stage
  split
  · exact Nat.zero_le 22
  · split
    · exact Nat.le_add_left 1 21
    · exact Nat.le_refl 22

end Probe

end SentenceBreaks.Trie
