import Namesake.Proofs.Handing
import Namesake.Proofs.Runs
import Namesake.Proofs.SessionCalls

/-! # Cycles of the usual pipeline

A merge runs the usual pipeline. Where it stands at any time is described by `Underway`: since the
last look at the count of changes it went along a trail, which confirmed as many pairs as the count
tells, and what was confirmed at that look has been followed up on by the passes gone through since.
Every jump that was taken is paid for by a pair that was confirmed before it.
-/

namespace Namesake

/-- The number of new things that are confirmed. -/
def Ledger.claims (l : Ledger) : Nat :=
  l.types.inverse.size + l.methods.inverse.size + l.fields.inverse.size

namespace Trail

variable {c : Context} {pool : Pool c.old.program c.new.program} {s s' : State}
  {actions : List Action}

/-- As many things are confirmed on a trail as changes are counted. -/
theorem claims (coherent : c.old.program.Coherent) (trail : Trail c pool s actions s')
    (lawful : s.ledger.Lawful c pool) : ∃ count, s'.changes = s.changes + count ∧
      s'.ledger.claims = s.ledger.claims + count := by
  obtain ⟨t, m, f, types, methods, fields, changes⟩ := trail.courses coherent lawful
  refine ⟨t + m + f, changes, ?_⟩
  have sizes := types.size_inverse
  have sizes' := methods.size_inverse
  have sizes'' := fields.size_inverse
  unfold Ledger.claims
  omega

/-- A trail after which no change is counted confirms nothing. -/
theorem target?_eq (coherent : c.old.program.Coherent) (trail : Trail c pool s actions s')
    (lawful : s.ledger.Lawful c pool) (quiet : s'.changes = 0) :
    (∀ k, s'.ledger.types.target? k = s.ledger.types.target? k) ∧
    (∀ k, s'.ledger.methods.target? k = s.ledger.methods.target? k) ∧
    ∀ k, s'.ledger.fields.target? k = s.ledger.fields.target? k := by
  obtain ⟨t, m, f, types, methods, fields, changes⟩ := trail.courses coherent lawful
  rw [quiet] at changes
  have none_ : t = 0 ∧ m = 0 ∧ f = 0 := by omega
  exact ⟨types.target?_eq none_.1, methods.target?_eq none_.2.1, fields.target?_eq none_.2.2⟩

end Trail

/-! ## The steps -/

theorem pass_of_operation {next : Nat} {work : Context → Work Unit}
    (here : defaultSteps[next]? = some (.operation work)) :
    ∃ pass, Pass.all[next]? = some pass ∧ work = pass.run := by
  rw [defaultSteps, List.getElem?_append] at here
  split at here
  · rw [List.getElem?_map, Option.map_eq_some_iff] at here
    obtain ⟨pass, present, same⟩ := here
    exact ⟨pass, present, (Step.operation.inj same).symm⟩
  · have jump := List.mem_singleton.mp (List.mem_of_getElem? here)
    cases jump

theorem eq_of_jump {next target : Nat} {predicate : Predicate}
    (here : defaultSteps[next]? = some (.jump target predicate)) :
    next = 14 ∧ target = 3 ∧ predicate = Predicate.changesSinceReset := by
  rw [defaultSteps, List.getElem?_append] at here
  split at here
  · rw [List.getElem?_map, Option.map_eq_some_iff] at here
    obtain ⟨pass, -, same⟩ := here
    cases same
  · rename_i beyond
    obtain ⟨inside, same⟩ := List.getElem?_eq_some_iff.mp here
    have jump := List.mem_singleton.mp (List.mem_of_getElem? here)
    cases jump
    refine ⟨?_, rfl, rfl⟩
    simp only [List.length_map, Pass.all, List.length_cons, List.length_nil] at inside beyond
    omega

/-- The pairs of methods the operations of a log handed over, the latest operation coming first. -/
def handedIn (c : Context) (start : Ledger) : List Execution → List (MethodId × MethodId)
  | [] => []
  | latest :: earlier => handedIn c start earlier ++
    (Pass.all[latest.step]?).elim [] fun pass => pass.handed c (ledgerAfter start earlier)

/-- The old methods that the passes of registrations in a log found confirmed. -/
def offeredIn (start : Ledger) : List Execution → List MethodId
  | [] => []
  | latest :: earlier => offeredIn start earlier ++
    if Pass.all[latest.step]? = some .registrations
      then (ledgerAfter start earlier).methods.pairs.map Prod.fst else []

/-- What the operations of a log would hand over if registrations skipped what was offered to them
before. -/
def handedAfresh (c : Context) (start : Ledger) : List Execution → List (MethodId × MethodId)
  | [] => []
  | latest :: earlier => handedAfresh c start earlier ++
    (Pass.all[latest.step]?).elim [] fun pass =>
      (pass.handed c (ledgerAfter start earlier)).filter fun (o, _) =>
        pass = .registrations → o ∉ offeredIn start earlier

/-! ## The invariant -/

section

variable (c : Context) (pool : Pool c.old.program c.new.program) (start : Ledger)
  (given : List (MethodId × MethodId)) (spare : Nat)

/-- What is known at a step of a run that began with a ledger, after certain pairs had been handed
over, and with a certain number of jumps to spare. -/
structure Underway (next cycle : Nat) (s : State) (log : List Execution) : Prop where
  inside : next ≤ 14
  /-- What the last operation left behind is still there. -/
  latest : ledgerAfter start log = s.ledger
  /-- Past the first pass of a cycle, the last operation was the pass before. -/
  ran : 3 < next → ∃ earlier, log = ⟨next - 1, cycle, s⟩ :: earlier
  cycles : ∀ e ∈ log, e.cycle ≤ cycle
  lawfulStart : (cycleStart start log cycle).Lawful c pool
  /-- A trail leads here from where the cycle began. -/
  trail : ∃ base actions, Trail c pool ⟨cycleStart start log cycle, base⟩ actions s
  /-- The count of changes did not fall since the cycle began. -/
  counted : ∀ e ∈ log, e.cycle = cycle → e.state.changes ≤ s.changes
  /-- The passes of the cycle followed up on what was confirmed when it began. -/
  followed : ∀ pass ∈ Pass.all.take next, pass.FollowedUp c (cycleStart start log cycle) s.ledger
  /-- Every jump and every change counted is paid for by a claim. -/
  paid : cycle + s.changes ≤ spare + s.ledger.claims
  handed : s.ledger.methods.HandedOver (given ++ handedIn c start log)
  /-- What has a handler and was offered to it is marked. -/
  offered : ∀ o ∈ offeredIn start log, (registry.get? (oldMethodKey c o)).isSome = true →
    s.ledger.methods.IsMerged (.real o)
  afresh : handedAfresh c start log = handedIn c start log

/-- A run is under way, or it looked at the count of changes for the last time. -/
inductive Stage : Nat → Nat → State → List Execution → Prop
  | running {next cycle : Nat} {s : State} {log : List Execution}
      (underway : Underway c pool start given spare next cycle s log) : Stage next cycle s log
  | left {cycle : Nat} {look : State} {log : List Execution}
      (underway : Underway c pool start given spare 14 cycle look log)
      (refused : ¬ ((Predicate.changesSinceReset look).1 = true ∧ cycle < c.settings.maxCycles)) :
      Stage 15 cycle look.takeChanges.2 log

end

variable {c : Context} {pool : Pool c.old.program c.new.program} {start : Ledger}
  {given : List (MethodId × MethodId)} {spare : Nat} {next cycle : Nat} {s : State}
  {log : List Execution}

namespace Underway

theorem lawful (coherent : c.Coherent)
    (underway : Underway c pool start given spare next cycle s log) :
    s.ledger.Lawful c pool := by
  obtain ⟨base, actions, trail⟩ := underway.trail
  exact trail.lawful coherent.old underway.lawfulStart

/-- A run is under way at its start. -/
theorem initial (lawful : s.ledger.Lawful c pool) (handed : s.ledger.methods.HandedOver given)
    (paid : cycle + s.changes ≤ spare + s.ledger.claims) :
    Underway c pool s.ledger given spare 0 cycle s [] where
  inside := Nat.zero_le 14
  latest := rfl
  ran beyond := absurd beyond (by decide)
  cycles _ := nofun
  lawfulStart := lawful
  trail := ⟨s.changes, [], .done s⟩
  counted _ := nofun
  followed _ := nofun
  paid := paid
  handed := by
    rw [handedIn, List.append_nil]
    exact handed
  offered _ := nofun
  afresh := rfl

section

variable {s' : State} {pass : Pass} {actions : List Action}

/-- After a pass, it has followed up as well. -/
theorem followed_pass (coherent : c.Coherent)
    (underway : Underway c pool start given spare next cycle s log)
    (here : Pass.all[next]? = some pass) (trail : Trail c pool s actions s')
    (takes : pass.Takes c s.ledger actions) :
    ∀ past ∈ Pass.all.take (next + 1),
      past.FollowedUp c (cycleStart start log cycle) s'.ledger := by
  have lawful := underway.lawful coherent
  intro past member
  rw [List.take_add_one, List.mem_append, here] at member
  rcases member with earlier | now
  · have kept := trail.grows coherent.old lawful
    exact (underway.followed past earlier).mono (.refl _) kept
  · obtain rfl := List.mem_singleton.mp now
    obtain ⟨base, before, former⟩ := underway.trail
    have grown := former.grows coherent.old underway.lawfulStart
    exact (Pass.followedUp coherent.old lawful trail takes).mono grown (.refl _)

/-- After a pass, what has a handler and was offered to it is still marked. -/
theorem offered_pass (coherent : c.Coherent)
    (underway : Underway c pool start given spare next cycle s log)
    (here : Pass.all[next]? = some pass) (trail : Trail c pool s actions s')
    (takes : pass.Takes c s.ledger actions) :
    ∀ o ∈ offeredIn start (⟨next, cycle, s'⟩ :: log),
      (registry.get? (oldMethodKey c o)).isSome = true → s'.ledger.methods.IsMerged (.real o) := by
  have lawful := underway.lawful coherent
  intro o member handler
  rw [offeredIn, List.mem_append, here, underway.latest] at member
  rcases member with earlier | now
  · have kept := trail.grows coherent.old lawful
    exact kept.mergedMethods (underway.offered o earlier handler)
  · split_ifs at now with registering
    · obtain rfl := Option.some.inj registering
      obtain ⟨⟨o', n⟩, pair, rfl⟩ := List.mem_map.mp now
      have target := lawful.methods.sound.mem_pairs.mp pair
      exact Pass.followedUp coherent.old lawful trail takes o' n target handler
    · cases now

/-- A pass hands over the same pairs if registrations skip what was offered to them before. -/
theorem afresh_pass (coherent : c.Coherent)
    (underway : Underway c pool start given spare next cycle s log)
    (here : Pass.all[next]? = some pass) :
    handedAfresh c start (⟨next, cycle, s'⟩ :: log) =
      handedIn c start (⟨next, cycle, s'⟩ :: log) := by
  simp only [handedAfresh, handedIn, here, Option.elim_some, underway.afresh, underway.latest]
  congr 1
  by_cases registering : pass = .registrations
  · subst registering
    have sound := (underway.lawful coherent).methods.sound
    have same := Pass.handed_registrations_skipping sound underway.offered
    simpa using same
  · simp [registering]

end

/-- **A pass keeps a run under way.** -/
theorem pass (coherent : c.Coherent)
    (underway : Underway c pool start given spare next cycle s log) {pass : Pass}
    (here : Pass.all[next]? = some pass) : ∃ s', pass.run c s = .ok () s' ∧
      Underway c pool start given spare (next + 1) cycle s' (⟨next, cycle, s'⟩ :: log) := by
  have lawful := underway.lawful coherent
  obtain ⟨s', actions, done, trail, takes⟩ := pass.run_trail coherent lawful
  obtain ⟨count, changes, claims⟩ := trail.claims coherent.old lawful
  have begun : cycleStart start (⟨next, cycle, s'⟩ :: log) cycle = cycleStart start log cycle :=
    cycleStart_cons start log rfl
  refine ⟨s', done, ?inside, rfl, fun _ => ⟨log, rfl⟩, ?cycles, ?lawfulStart, ?trail, ?counted,
    ?followed, ?paid, ?handed, underway.offered_pass coherent here trail takes,
    underway.afresh_pass coherent here⟩
  case inside =>
    obtain ⟨bound, -⟩ := List.getElem?_eq_some_iff.mp here
    exact bound
  case cycles =>
    intro e member
    rcases List.mem_cons.mp member with rfl | earlier
    · exact Nat.le_refl cycle
    · exact underway.cycles e earlier
  case lawfulStart =>
    rw [begun]
    exact underway.lawfulStart
  case trail =>
    obtain ⟨base, before, former⟩ := underway.trail
    rw [begun]
    exact ⟨base, before ++ actions, former.append trail⟩
  case counted =>
    intro e member same
    rcases List.mem_cons.mp member with rfl | earlier
    · exact Nat.le_refl _
    · have before := underway.counted e earlier same
      omega
  case followed =>
    rw [begun]
    exact underway.followed_pass coherent here trail takes
  case paid =>
    have paid := underway.paid
    omega
  case handed =>
    have handed := trail.handedOver coherent.old lawful (Pass.handed_sublist c s.ledger pass)
      (Pass.mergedMethod_mem_iff takes) underway.handed
    rw [List.append_assoc] at handed
    simp only [handedIn, here, underway.latest]
    exact handed

/-- **A jump keeps a run under way.** -/
theorem jump (coherent : c.Coherent)
    (underway : Underway c pool start given spare 14 cycle s log) (changed : 0 < s.changes) :
    Underway c pool start given spare 3 (cycle + 1) s.takeChanges.2 log := by
  have begun : cycleStart start log (cycle + 1) = s.ledger := by
    rw [cycleStart_of_later start fun e member => Nat.lt_succ_of_le (underway.cycles e member)]
    exact underway.latest
  refine ⟨by decide, underway.latest, ?ran, ?cycles, ?lawfulStart, ?trail, ?counted, ?followed,
    ?paid, underway.handed, underway.offered, underway.afresh⟩
  case ran => exact fun beyond => absurd beyond (by decide)
  case cycles =>
    intro e member
    exact Nat.le_succ_of_le (underway.cycles e member)
  case lawfulStart =>
    rw [begun]
    exact underway.lawful coherent
  case trail =>
    rw [begun]
    exact ⟨0, [], .done _⟩
  case counted =>
    -- what is in the log belongs to earlier cycles
    intro e member same
    have former := underway.cycles e member
    omega
  case followed =>
    -- the passes before the loop follow up on nothing
    intro pass member
    have early : pass ∈ [Pass.literals, .bridges, .enums] := member
    simp only [List.mem_cons, List.not_mem_nil, or_false] at early
    rcases early with rfl | rfl | rfl
    all_goals trivial
  case paid =>
    have paid := underway.paid
    simp only [State.takeChanges]
    omega

end Underway

/-- **Every step of the usual pipeline keeps the invariant.** -/
theorem upheld_stage (coherent : c.Coherent) :
    Upheld c defaultSteps (Stage c pool start given spare) where
  operation := by
    intro next cycle s log work here stage
    obtain ⟨pass, present, rfl⟩ := pass_of_operation here
    cases stage with
    | running underway =>
        obtain ⟨s', done, kept⟩ := underway.pass coherent present
        exact ⟨s', done, .running kept⟩
    | left => cases present
  taken := by
    intro next cycle target s log predicate here stage wanted allowed
    obtain ⟨rfl, rfl, rfl⟩ := eq_of_jump here
    cases stage with
    | running underway => exact .running (underway.jump coherent (of_decide_eq_true wanted))
  passed := by
    intro next cycle target s log predicate here stage refused
    obtain ⟨rfl, rfl, rfl⟩ := eq_of_jump here
    cases stage with
    | running underway => exact .left underway refused

namespace Underway

/-- At the end of a cycle the collector was the last operation. -/
theorem ended (underway : Underway c pool start given spare 14 cycle s log) :
    ∃ earlier, log = ⟨13, cycle, s⟩ :: earlier :=
  underway.ran (by decide)

/-- A cycle at whose end no change is counted confirmed nothing. -/
theorem quiet (coherent : c.Coherent)
    (underway : Underway c pool start given spare 14 cycle s log) (none_ : s.changes = 0) :
    (∀ k, s.ledger.types.target? k = (cycleStart start log cycle).types.target? k) ∧
    (∀ k, s.ledger.methods.target? k = (cycleStart start log cycle).methods.target? k) ∧
    ∀ k, s.ledger.fields.target? k = (cycleStart start log cycle).fields.target? k := by
  obtain ⟨base, actions, trail⟩ := underway.trail
  exact trail.target?_eq coherent.old underway.lawfulStart none_

end Underway

/-- **How a run of the usual pipeline ends.** No pass fails, and the run ends at a look at the count
of changes after which it was not to go on. -/
theorem runSteps_default (coherent : c.Coherent) (lawful : s.ledger.Lawful c pool)
    (handed : s.ledger.methods.HandedOver given)
    (paid : cycle + s.changes ≤ spare + s.ledger.claims) :
    let outcome := runSteps c defaultSteps cycle s
    outcome.failure = none ∧ ∃ look : State, outcome.state = look.takeChanges.2 ∧
      Underway c pool s.ledger given spare 14 outcome.cycle look outcome.log ∧
      (0 < look.changes → c.settings.maxCycles ≤ outcome.cycle) := by
  intro outcome
  have begun : Stage c pool s.ledger given spare 0 cycle s [] :=
    .running (.initial lawful handed paid)
  obtain ⟨success, last, beyond, stage⟩ := (upheld_stage coherent).runFrom begun
  refine ⟨success, ?_⟩
  have ended : 15 ≤ last := beyond
  generalize reached : (runFrom c defaultSteps 0 cycle s []).state = final at stage
  cases stage with
  | running underway =>
      have inside := underway.inside
      omega
  | @left _ look _ underway refused =>
      refine ⟨look, reached, underway, ?_⟩
      intro changed
      by_contra more
      exact refused ⟨decide_eq_true changed, Nat.lt_of_not_le more⟩

namespace Session

/-- A merge seeds the session and runs the pipeline. If nothing failed, it carries the names
over. -/
theorem merge_eq_run (s : Session) :
    let begun := s.afterCall .seed
    let outcome := runSteps begun.context begun.steps begun.cycle begun.state
    let ran := { begun with cycle := outcome.cycle, state := outcome.state }
    merge s = match outcome.failure with
      | some e => .error e ran
      | none => .ok outcome.log
        { ran with output := project ran.context ran.state.ledger ran.output } := by
  intro begun outcome ran
  have seeded : seed s = .ok () begun := by
    simp only [begun, afterCall, Call.make, seed_eq]
  have looked : (get : EStateM MergeError Session Session) begun = .ok begun begun := rfl
  have stored : (set ran : EStateM MergeError Session Unit) begun = .ok () ran := rfl
  unfold merge
  rw [bind_of_ok seeded, bind_of_ok looked]
  refine (bind_of_ok stored).trans ?_
  dsimp only [outcome]
  cases (runSteps begun.context begun.steps begun.cycle begun.state).failure with
  | some e => rfl
  | none => rfl

/-- Where no operation fails, a merge succeeds. -/
theorem merge_eq (s : Session) :
    let begun := s.afterCall .seed
    let outcome := runSteps begun.context begun.steps begun.cycle begun.state
    outcome.failure = none → merge s = .ok outcome.log { begun with
      cycle := outcome.cycle
      state := outcome.state
      output := project begun.context outcome.state.ledger begun.output } := by
  intro begun outcome success
  rw [merge_eq_run, success]

/-- Where an operation fails, so does the merge. -/
theorem merge_eq_error (s : Session) {e : MergeError} :
    let begun := s.afterCall .seed
    let outcome := runSteps begun.context begun.steps begun.cycle begun.state
    outcome.failure = some e →
      merge s = .error e { begun with cycle := outcome.cycle, state := outcome.state } := by
  intro begun outcome failure
  rw [merge_eq_run, failure]

/-- **How a merge ends.** A merge with the usual pipeline succeeds. It ends after a look at the
count of changes that the collector left behind. -/
theorem merge_default (coherent : c.Coherent) {s : Session} (about : s.context = c)
    (usual : s.steps = defaultSteps) (lawful : s.state.ledger.Lawful c pool)
    (handed : s.state.ledger.methods.HandedOver given) :
    let begun := s.afterCall .seed
    ∃ log s' look, s.merge = .ok log s' ∧ s'.state = look.takeChanges.2 ∧
      Underway c pool begun.state.ledger given (begun.cycle + begun.state.changes) 14 s'.cycle look
        log ∧
      (0 < look.changes → c.settings.maxCycles ≤ s'.cycle) := by
  intro begun
  have formed : Call.seed.IsWellFormed c pool := trivial
  obtain ⟨context, lawful', handed'⟩ := lawful_afterCall coherent about lawful formed
  have given' := handed' given handed
  rw [handedByCall, List.append_nil] at given'
  have paid := Nat.le_add_right (begun.cycle + begun.state.changes) begun.state.ledger.claims
  obtain ⟨success, look, state, underway, limit⟩ := runSteps_default coherent lawful' given' paid
  have merged := merge_eq s
  simp only [steps_afterCall, usual, context] at merged
  exact ⟨_, _, look, merged success, state, underway, limit⟩

end Session

end Namesake
