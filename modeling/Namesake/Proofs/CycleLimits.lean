import Namesake.Proofs.Accounts

/-! # Limits on cycles

A run of the usual pipeline that may take more jumps does the same as one that may take fewer, until
the latter is refused a jump. That is the end of it, as the jump is the last step, while the longer
run goes on from there and keeps what is confirmed. So the longer run confirms all the shorter one
does (`Session.merge_extends_with_limit`).
-/

namespace Namesake

/-- The same merge with another limit on its cycles. -/
def Context.limited (c : Context) (limit : Nat) : Context :=
  { c with settings := { c.settings with maxCycles := limit } }

variable {c : Context}

/-! ## Passes -/

theorem overridesFrom_limited (c : Context) (limit : Nat) (l : Ledger) (met : List MethodId)
    (pairs : List (MethodId × MethodId)) :
    overridesFrom (c.limited limit) l met pairs = overridesFrom c l met pairs := by
  have ballots (group : OverrideGroup) (n : MethodId) :
      overrideBallots (c.limited limit) l group n = overrideBallots c l group n := rfl
  have groups : (c.limited limit).old.groups = c.old.groups := rfl
  induction pairs generalizing met with
  | nil => rfl
  | cons first rest ih => simp only [overridesFrom, ballots, groups, ih]

/-- No pass looks at the limit. -/
theorem Pass.run_limited (pass : Pass) (c : Context) (limit : Nat) :
    pass.run (c.limited limit) = pass.run c := by
  cases pass with
  | overrides =>
      have planned (l : Ledger) : matchOverrides (c.limited limit) l = matchOverrides c l :=
        overridesFrom_limited c limit l [] l.methods.pairs
      simp only [Pass.run, Pass.plan?, planned]
      rfl
  | literals | bridges | enums | initializers | references | discreteFields | discreteMethods
  | nestedTypes | confirmedTypes | registrations | confirmedMethods | confirmedFields
  | collector => rfl

/-! ## Single steps -/

section

variable {steps : List Step} {next cycle : Nat} {s s' : State} {log : List Execution}

theorem runFrom_operation {work : Context → Work Unit}
    (here : steps[next]? = some (.operation work)) (done : work c s = .ok () s') :
    runFrom c steps next cycle s log =
      runFrom c steps (next + 1) cycle s' (⟨next, cycle, s'⟩ :: log) := by
  obtain ⟨inside, present⟩ := List.getElem?_eq_some_iff.mp here
  rw [runFrom, dif_pos inside]
  simp only [present, done]

theorem runFrom_jump {target : Nat} {predicate : Predicate}
    (here : steps[next]? = some (.jump target predicate)) :
    runFrom c steps next cycle s log =
      if (predicate s).1 = true ∧ cycle < c.settings.maxCycles then
        runFrom c steps target (cycle + 1) (predicate s).2 log
      else runFrom c steps (next + 1) cycle (predicate s).2 log := by
  obtain ⟨inside, present⟩ := List.getElem?_eq_some_iff.mp here
  rw [runFrom, dif_pos inside]
  simp only [present]
  rfl

theorem runFrom_end (beyond : steps.length ≤ next) :
    runFrom c steps next cycle s log = ⟨cycle, s, none, log⟩ := by
  rw [runFrom, dif_neg (Nat.not_lt_of_le beyond)]

end

/-! ## Two runs -/

/-- A run got as far as another one, and possibly further: no pass failed in either, the log of the
other is the first part of its own, and it has confirmed all the other has. -/
structure Outcome.Continues (longer shorter : Outcome) : Prop where
  shorterSucceeds : shorter.failure = none
  longerSucceeds : longer.failure = none
  extends_ : shorter.state.ledger.Extends longer.state.ledger
  logs : shorter.log <:+ longer.log

/-- A run continues what was done before it. -/
theorem runFrom_continues {next cycle before : Nat} {s : State} {log : List Execution}
    (sound : s.ledger.Each Partition.Sound) :
    (runFrom c defaultSteps next cycle s log).Continues ⟨before, s, none, log⟩ := by
  have upheld : Upheld c defaultSteps fun _ _ s' log' =>
      s'.ledger.Each Partition.Sound ∧ s.ledger.Extends s'.ledger ∧ log <:+ log' := by
    refine ⟨?_, ?_, ?_⟩
    · rintro next cycle s₁ log₁ work here ⟨sound₁, extends_, begins⟩
      obtain ⟨pass, -, rfl⟩ := pass_of_operation here
      obtain ⟨s', done, actions, -, rfl⟩ := pass.run_does (c := c) sound₁
      exact ⟨_, done, Partition.invariant_sound.foldl_after sound₁ c actions,
        extends_.trans (State.extends_foldl_after sound₁ actions),
        begins.trans (List.suffix_cons ..)⟩
    · rintro next cycle target s₁ log₁ predicate here holds - -
      obtain ⟨rfl, rfl, rfl⟩ := eq_of_jump here
      exact holds
    · rintro next cycle target s₁ log₁ predicate here holds -
      obtain ⟨rfl, rfl, rfl⟩ := eq_of_jump here
      exact holds
  have begins : s.ledger.Each Partition.Sound ∧ s.ledger.Extends s.ledger ∧ log <:+ log :=
    ⟨sound, .refl _, List.suffix_rfl⟩
  obtain ⟨success, -, -, -, extends_, logs⟩ := upheld.runFrom begins
  exact ⟨rfl, success, extends_, logs⟩

/-- **A run with a higher limit continues one with a lower limit.** -/
theorem runFrom_limited_continues {few many : Nat} (more : few ≤ many) {next cycle : Nat}
    {s : State} {log : List Execution} (sound : s.ledger.Each Partition.Sound) :
    (runFrom (c.limited many) defaultSteps next cycle s log).Continues
      (runFrom (c.limited few) defaultSteps next cycle s log) := by
  fun_induction runFrom (c.limited few) defaultSteps next cycle s log with
  | case1 next cycle s log inside work here s' done ih =>
      have present := List.getElem?_eq_some_iff.mpr ⟨inside, here⟩
      obtain ⟨pass, -, rfl⟩ := pass_of_operation present
      obtain ⟨s₁, success, actions, -, rfl⟩ := pass.run_does (c := c) sound
      rw [pass.run_limited, success] at done
      cases done
      rw [runFrom_operation present (pass.run_limited c many ▸ success)]
      exact ih (Partition.invariant_sound.foldl_after sound c actions)
  | case2 next cycle s log inside work here e s' failed =>
      obtain ⟨pass, -, rfl⟩ := pass_of_operation (List.getElem?_eq_some_iff.mpr ⟨inside, here⟩)
      obtain ⟨s₁, success, -⟩ := pass.run_does (c := c) sound
      rw [pass.run_limited, success] at failed
      cases failed
  | case3 next cycle s log inside target predicate here wanted s' look taken ih =>
      have present := List.getElem?_eq_some_iff.mpr ⟨inside, here⟩
      obtain ⟨rfl, rfl, rfl⟩ := eq_of_jump present
      cases look
      rw [runFrom_jump present, if_pos ⟨taken.1, Nat.lt_of_lt_of_le taken.2 more⟩]
      exact ih sound
  | case4 next cycle s log inside target predicate here wanted s' look refused ih =>
      -- the shorter run is over, and whatever the longer one does comes on top
      have present := List.getElem?_eq_some_iff.mpr ⟨inside, here⟩
      obtain ⟨rfl, rfl, rfl⟩ := eq_of_jump present
      cases look
      have beyond : defaultSteps.length ≤ 14 + 1 := Nat.le_refl _
      have kept : s.takeChanges.2.ledger.Each Partition.Sound := sound
      rw [runFrom_jump present, runFrom_end (c := c.limited few) beyond]
      split_ifs
      · exact runFrom_continues kept
      · exact runFrom_continues kept
  | case5 next cycle s log outside =>
      rw [runFrom_end (Nat.le_of_not_lt outside)]
      exact ⟨rfl, rfl, .refl _, List.suffix_rfl⟩

/-! ## The first round -/

/-- The state a pass leaves behind, failed or not. -/
def Pass.after (c : Context) (s : State) (pass : Pass) : State :=
  match pass.run c s with
  | .ok () s' | .error _ s' => s'

/-- A run goes through the passes in their order before it comes to the jump. -/
theorem runFrom_round (before rest : List Pass) (usual : Pass.all = before ++ rest) (cycle : Nat)
    {s : State} (sound : s.ledger.Each Partition.Sound) (log : List Execution) :
    let s' := rest.foldl (Pass.after c) s
    s'.ledger.Each Partition.Sound ∧ ∃ log',
      runFrom c defaultSteps before.length cycle s log =
        runFrom c defaultSteps 14 cycle s' log' := by
  induction rest generalizing before s log with
  | nil =>
      have all : before.length = 14 := by
        rw [← List.append_nil before, ← usual]
        rfl
      exact ⟨sound, log, by rw [all]; rfl⟩
  | cons pass rest ih =>
      have here : defaultSteps[before.length]? = some (.operation pass.run) := by
        rw [defaultSteps, usual]
        simp [Step.pass]
      obtain ⟨s₁, success, actions, -, rfl⟩ := pass.run_does (c := c) sound
      have left : pass.after c s = actions.foldl (State.after c) s := by
        rw [Pass.after, success]
      rw [runFrom_operation here success, List.foldl_cons, left]
      have usual' : Pass.all = (before ++ [pass]) ++ rest := by rw [usual, List.append_cons]
      have further := ih (before ++ [pass]) usual'
        (Partition.invariant_sound.foldl_after sound c actions)
        (⟨before.length, cycle, actions.foldl (State.after c) s⟩ :: log)
      rwa [List.length_append] at further

namespace Session

/-- **A higher limit on the cycles confirms no less.** Of two merges that differ in the limit only,
both succeed, and the one with the higher limit confirms every type, method and field that the other
one confirms, onto the same target. It also goes through all the passes the other one goes through,
and they leave the same states behind. -/
theorem merge_extends_with_limit (old : Program) (names : MappingSet) (new : Program)
    (known : MappingSet) (settings : MergeSettings) {few many : Nat} (more : few ≤ many) :
    let session (limit : Nat) :=
      (start old names new known { settings with maxCycles := limit }).withDefaultSteps
    ∃ log s log' s', (session few).merge = .ok log s ∧ (session many).merge = .ok log' s' ∧
      s.state.ledger.Extends s'.state.ledger ∧ log <:+ log' := by
  intro session
  let c := Context.of old names new settings
  let begun (limit : Nat) := (session limit).afterCall .seed
  have seeded (limit : Nat) : (begun limit).state = (begun few).state := by
    simp only [begun, afterCall, Call.make, seed_eq]
    rfl
  have about (limit : Nat) : (begun limit).context = c.limited limit ∧
      (begun limit).steps = defaultSteps ∧ (begun limit).cycle = 0 := by
    simp only [begun, afterCall, Call.make, seed_eq]
    exact ⟨rfl, rfl, rfl⟩
  have sound : (begun few).state.ledger.Each Partition.Sound := by
    obtain ⟨-, reachable⟩ :=
      reachable_afterCall (s := session few) (reachable_start old names new known _) .seed
    exact reachable.each Partition.invariant_sound
  let outcome (limit : Nat) := runFrom (c.limited limit) defaultSteps 0 0 (begun few).state []
  have merged (limit : Nat) (success : (outcome limit).failure = none) :
      ∃ s, (session limit).merge = .ok (outcome limit).log s ∧ s.state = (outcome limit).state := by
    have ran : runSteps (begun limit).context (begun limit).steps (begun limit).cycle
        (begun limit).state = outcome limit := by
      obtain ⟨context, steps, cycle⟩ := about limit
      rw [context, steps, cycle, seeded]
      rfl
    have merged := merge_eq (session limit)
    simp only [begun] at ran
    simp only [ran] at merged
    exact ⟨_, merged success, rfl⟩
  have continues : (outcome many).Continues (outcome few) := runFrom_limited_continues more sound
  obtain ⟨s, shorter, state⟩ := merged few continues.shorterSucceeds
  obtain ⟨s', longer, state'⟩ := merged many continues.longerSucceeds
  refine ⟨_, s, _, s', shorter, longer, ?_, continues.logs⟩
  rw [state, state']
  exact continues.extends_

/-- A merge that may run its passes once confirms no more than one that may repeat them. -/
theorem merge_extends_with_limit_of_single :
    let old := Program.single "a" "b"
    let new := Program.single "x" "y"
    let names := (∅ : MappingSet).addType "a" "Known"
    let known := (∅ : MappingSet).addType "x" "Known"
    let session (limit : Nat) :=
      (start old names new known { MergeSettings.default with maxCycles := limit }).withDefaultSteps
    0 ≤ 7 ∧ ((session 0).afterCall .seed).state.ledger.types.target? (.real ⟨0⟩) = some ⟨0⟩ ∧
      ∃ log s log' s', (session 0).merge = .ok log s ∧ (session 7).merge = .ok log' s' ∧
        s.state.ledger.Extends s'.state.ledger ∧ log <:+ log' := by
  intro old new names known session
  have seeded :
      ((session 0).afterCall .seed).state.ledger.types.target? (.real ⟨0⟩) = some ⟨0⟩ := by
    decide +kernel
  have more : 0 ≤ 7 := by decide
  exact ⟨more, seeded, merge_extends_with_limit old names new known .default more⟩

/-- The state a pass leaves behind in a session. -/
theorem afterCall_pass (s : Session) (pass : Pass) :
    s.afterCall (.pass pass) = { s with state := pass.after s.context s.state } := by
  simp only [afterCall, Call.make, perform, Pass.after]
  cases pass.run s.context s.state <;> rfl

/-- **A merge confirms whatever one round of the passes does**, and possibly more. -/
theorem merge_extends_round {s : Session} (usual : s.steps = defaultSteps)
    (reachable : s.state.Reachable s.context) :
    ∃ log s', s.merge = .ok log s' ∧
      (s.afterCalls (.seed :: Pass.all.map .pass)).state.ledger.Extends s'.state.ledger := by
  obtain ⟨context, reachable'⟩ := reachable_afterCall reachable .seed
  have passes (rest : List Pass) (s : Session) :
      (s.afterCalls (rest.map .pass)).state = rest.foldl (Pass.after s.context) s.state := by
    induction rest generalizing s with
    | nil => rfl
    | cons pass rest ih =>
        have first : s.afterCalls ((pass :: rest).map .pass) =
            (s.afterCall (.pass pass)).afterCalls (rest.map .pass) := rfl
        rw [first, ih, afterCall_pass, List.foldl_cons]
  have started : (s.afterCalls (.seed :: Pass.all.map .pass)).state =
      Pass.all.foldl (Pass.after s.context) (s.afterCall .seed).state := by
    have first (rest : List Call) : s.afterCalls (.seed :: rest) =
        (s.afterCall .seed).afterCalls rest := rfl
    rw [first, passes, context]
  have seeded := reachable'.each Partition.invariant_sound
  obtain ⟨sound, log', round⟩ := runFrom_round [] Pass.all rfl (s.afterCall .seed).cycle seeded []
  have continues : (runFrom s.context defaultSteps 14 (s.afterCall .seed).cycle _ log').Continues
      ⟨0, _, none, log'⟩ := runFrom_continues sound
  rw [← round] at continues
  have merged := merge_eq s
  simp only [steps_afterCall, usual, context] at merged
  rw [started]
  exact ⟨_, _, merged continues.longerSucceeds, continues.extends_⟩

end Session

end Namesake
