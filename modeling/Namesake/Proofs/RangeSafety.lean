import Namesake.Proofs.Chronicle
import Namesake.Proofs.Ranges
import Namesake.Proofs.TracedMerges

/-! # Merges never fail

In valid programs a merge with the usual pipeline comes to its end, and all along it handles numbers
of the right program only: those the builds are made of, those every action names, and those the
ledger holds, before and after every single action. Whatever it looks up on its way is part of the
program it is looked up in.
-/

namespace Namesake

/-- Carrying out actions from a state stays in range: every action does, and every ledger on the
way. -/
structure StaysInRange (c : Context) (s : State) (actions : List Action) : Prop where
  action : ∀ a ∈ actions, a.InRange c.old.program c.new.program
  ledger : ∀ done, done <+: actions →
    (done.foldl (State.after c) s).ledger.InRange c.old.program c.new.program

/-- A trail that may name nothing but what is in the programs stays in range. -/
theorem Trail.staysInRange {c : Context} (coherent : c.Coherent) {s s' : State}
    {actions : List Action} (trail : Trail c (.inside coherent.new) s actions s')
    (lawful : s.ledger.Lawful c (.inside coherent.new)) (undecided : s.ledger.Undecided) :
    StaysInRange c s actions where
  action a member := by
    obtain ⟨done, -, warranted⟩ := trail.warranted_of_mem member
    exact warranted.inRange
  ledger done begins := by
    obtain ⟨later, rfl⟩ := begins
    exact (trail.of_append.lawful coherent.old lawful).inRange (undecided.foldl_after c done)

/-- All along a log nothing that is pending has a target. -/
theorem Chronicle.undecided {c : Context} {pool : Pool c.old.program c.new.program}
    {start : Ledger} {log : List Execution} (chronicle : Chronicle c pool start log)
    (before : start.Undecided) : (ledgerAfter start log).Undecided := by
  induction chronicle with
  | begun => exact before
  | @ran log step cycle pass s s' actions earlier here latest takes trail ih =>
      rw [← latest] at ih
      rw [trail.eq_foldl]
      exact ih.foldl_after c actions

namespace Session

/-- **A merge succeeds and stays in range.** For any valid programs, names and settings a new
session merges with the usual pipeline without failing. The merge that notes its lookups gives the
same, and every type, method and field it looks up is in the program it is looked up in: while the
builds are made, while passes plan, compare, vote and confirm, in the collector, and when the names
are carried over. Both builds are in range, and so are seeding and what every pass does, action by
action; so is the ledger the names are carried over from. -/
theorem merge_stays_in_range (old : Program) (names : MappingSet) (new : Program)
    (known : MappingSet) (settings : MergeSettings) (validOld : old.validate = .ok ())
    (validNew : new.validate = .ok ()) :
    let c := Context.of old names new settings
    let s := (start old names new known settings).withDefaultSteps
    let begun := (s.afterCall .seed).state.ledger
    let traced := Traced.merge old names new known settings
    traced.value = s.merge ∧ (∀ look ∈ traced.lookups, look.InRange) ∧
      c.old.InRange ∧ c.new.InRange ∧
      begun = ((seedActions c known).foldl (State.after c) s.state).ledger ∧
      StaysInRange c s.state (seedActions c known) ∧
      ∃ log s', s.merge = .ok log s' ∧ s'.state.ledger.InRange old new ∧
        s'.output = project c s'.state.ledger known ∧
        ∀ e earlier, (e :: earlier) <:+ log → ∃ pass base actions,
          Pass.all[e.step]? = some pass ∧ pass.Takes c (ledgerAfter begun earlier) actions ∧
          e.state = actions.foldl (State.after c) ⟨ledgerAfter begun earlier, base⟩ ∧
          StaysInRange c ⟨ledgerAfter begun earlier, base⟩ actions := by
  intro c s begun traced
  have coherent : c.Coherent := coherent_of_validate validOld validNew names settings
  have lawful : s.state.ledger.Lawful c (.inside coherent.new) :=
    start_lawful old names new known settings (.inside coherent.new)
  have undecided : s.state.ledger.Undecided := Ledger.empty_undecided
  have seeding : Trail c (.inside coherent.new) s.state (seedActions c known) s.seedState :=
    seedState_trail (s := s) coherent lawful
  have seeded : begun = ((seedActions c known).foldl (State.after c) s.state).ledger := by
    simp only [begun, afterCall, Call.make, seed_eq]
    rfl
  have undecided' : begun.Undecided := seeded ▸ undecided.foldl_after c (seedActions c known)
  obtain ⟨log, s', merged, lawful', chronicle, latest, output⟩ :=
    merge_chronicle coherent rfl (rfl : s.steps = defaultSteps) lawful
  refine ⟨Traced.value_merge old names new known settings,
    Traced.inRange_merge coherent.old coherent.new names known settings,
    Build.inRange coherent.old, Build.inRange coherent.new, seeded,
    seeding.staysInRange coherent lawful undecided, log, s', merged, ?_, ?_, ?_⟩
  · rw [latest]
    exact (chronicle.lawful coherent.old lawful').inRange (chronicle.undecided undecided')
  · rw [output]
    simp only [afterCall, Call.make, seed_eq]
    rfl
  · intro e earlier ends
    have upTo := chronicle.of_suffix ends
    obtain ⟨pass, base, actions, here, takes, trail⟩ := upTo.entry
    have before := chronicle.of_suffix ((List.suffix_cons e earlier).trans ends)
    exact ⟨pass, base, actions, here, takes, trail.eq_foldl,
      trail.staysInRange coherent (before.lawful coherent.old lawful')
        (before.undecided undecided')⟩

/-- Two programs of one class each merge within their ranges, however little the settings allow. -/
theorem merge_stays_in_range_of_single :
    let old := Program.single "a" "b"
    let new := Program.single "x" "y"
    let names := (∅ : MappingSet).addType "a" "Known"
    let known := (∅ : MappingSet).addType "x" "Known"
    let settings : MergeSettings := ⟨[], ⟨0, 0, 0, 0⟩, 0, true⟩
    let s := (start old names new known settings).withDefaultSteps
    old.validate = .ok () ∧ new.validate = .ok () ∧
      (s.afterCall .seed).state.ledger.types.target? (.real ⟨0⟩) = some ⟨0⟩ ∧
      (let looked := (Traced.merge old names new known settings).lookups
      Lookup.type old ⟨0⟩ ∈ looked ∧ Lookup.type new ⟨0⟩ ∈ looked ∧
        ∀ look ∈ looked, look.InRange) ∧
      ∃ log s', s.merge = .ok log s' ∧ s'.state.ledger.InRange old new := by
  intro old new names known settings s
  have validOld := Program.validate_single "a" "b"
  have validNew := Program.validate_single "x" "y"
  have seeded : (s.afterCall .seed).state.ledger.types.target? (.real ⟨0⟩) = some ⟨0⟩ := by
    decide +kernel
  have subtypes (p : Program) (t : TypeId) (looked : .type p t ∈ (Traced.subtypes p).lookups) :
      .type p t ∈ (Traced.build p).lookups :=
    List.mem_append_left _ (List.mem_append_left _ looked)
  -- the first thing a build does is to look for the supertypes of each type
  have ofOld : .type old ⟨0⟩ ∈ (Traced.build old).lookups := subtypes old ⟨0⟩ List.mem_cons_self
  have ofNew : .type new ⟨0⟩ ∈ (Traced.build new).lookups := subtypes new ⟨0⟩ List.mem_cons_self
  obtain ⟨-, looked, -, -, -, -, log, s', merged, inRange, -⟩ :=
    merge_stays_in_range old names new known settings validOld validNew
  exact ⟨validOld, validNew, seeded,
    ⟨List.mem_append_left _ (List.mem_append_left _ ofOld),
      List.mem_append_left _ (List.mem_append_right _ (List.mem_append_left _ ofNew)), looked⟩,
    log, s', merged, inRange⟩

end Session

end Namesake
