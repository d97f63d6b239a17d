import Mathlib.Data.Option.Defs
import Namesake.Proofs.TallyIndependence

/-! # Further statements

A block agrees with any block that goes on where it ends, so what stands at the end of a new block,
at whatever depth, is looked at only if the old block is longer. `Statement.ProlongedTo` relates a
statement to those with further statements at the end of some of its blocks. Two statements that
agree are compared by the same checks when the new one is prolonged
(`Comparison.statements_prolonged`), so a session comes to the same answer and the same state
(`Session.compare_prolonged`).
-/

namespace Namesake

mutual

/-- `s.ProlongedTo s'` says that `s'` is `s` with further statements at the end of some of its
blocks, at any depth. -/
inductive Statement.ProlongedTo : Statement → Statement → Prop
  | refl (s : Statement) : Statement.ProlongedTo s s
  | doWhile (condition : Condition) {body body' : List Statement} :
      Statement.BlockProlongedTo body body' →
      Statement.ProlongedTo (.doWhile condition body) (.doWhile condition body')
  | whileLoop (condition : Condition) {body body' : List Statement} :
      Statement.BlockProlongedTo body body' →
      Statement.ProlongedTo (.whileLoop condition body) (.whileLoop condition body')
  | forLoop (condition : Option Condition) {first first' next next' : Option Statement}
      {body body' : List Statement} :
      Option.Rel Statement.ProlongedTo first first' →
      Option.Rel Statement.ProlongedTo next next' → Statement.BlockProlongedTo body body' →
      Statement.ProlongedTo (.forLoop first condition next body)
        (.forLoop first' condition next' body')
  | forEach (slot : Local) (collection : Instruction) {body body' : List Statement} :
      Statement.BlockProlongedTo body body' →
      Statement.ProlongedTo (.forEach slot collection body) (.forEach slot collection body')
  | ifElse (condition : Condition) {body body' : List Statement} {elifs elifs' : List Elif}
      {last last' : Option (List Statement)} :
      Statement.BlockProlongedTo body body' → Elif.AllProlongedTo elifs elifs' →
      Option.Rel Statement.BlockProlongedTo last last' →
      Statement.ProlongedTo (.ifElse condition body elifs last)
        (.ifElse condition body' elifs' last')
  | switchOn (value : Instruction) {cases cases' : List Case} :
      Case.AllProlongedTo cases cases' →
      Statement.ProlongedTo (.switchOn value cases) (.switchOn value cases')
  | tryCatch {body body' : List Statement} {catches catches' : List CatchBlock} :
      Statement.BlockProlongedTo body body' → CatchBlock.AllProlongedTo catches catches' →
      Statement.ProlongedTo (.tryCatch body catches) (.tryCatch body' catches')

/-- The statements of a block are prolonged, and further ones follow. -/
inductive Statement.BlockProlongedTo : List Statement → List Statement → Prop
  | further (more : List Statement) : Statement.BlockProlongedTo [] more
  | cons {s s' : Statement} {rest rest' : List Statement} :
      Statement.ProlongedTo s s' → Statement.BlockProlongedTo rest rest' →
      Statement.BlockProlongedTo (s :: rest) (s' :: rest')

inductive Elif.AllProlongedTo : List Elif → List Elif → Prop
  | nil : Elif.AllProlongedTo [] []
  | cons (condition : Condition) {body body' : List Statement} {rest rest' : List Elif} :
      Statement.BlockProlongedTo body body' → Elif.AllProlongedTo rest rest' →
      Elif.AllProlongedTo (.mk condition body :: rest) (.mk condition body' :: rest')

inductive Case.AllProlongedTo : List Case → List Case → Prop
  | nil : Case.AllProlongedTo [] []
  | cons (indices : List Int32) (isDefault : Bool) {body body' : List Statement}
      {rest rest' : List Case} :
      Statement.BlockProlongedTo body body' → Case.AllProlongedTo rest rest' →
      Case.AllProlongedTo (.mk indices isDefault body :: rest)
        (.mk indices isDefault body' :: rest')

inductive CatchBlock.AllProlongedTo : List CatchBlock → List CatchBlock → Prop
  | nil : CatchBlock.AllProlongedTo [] []
  | cons (exceptions : List String) (slot : Local) {body body' : List Statement}
      {rest rest' : List CatchBlock} :
      Statement.BlockProlongedTo body body' → CatchBlock.AllProlongedTo rest rest' →
      CatchBlock.AllProlongedTo (.mk exceptions slot body :: rest)
        (.mk exceptions slot body' :: rest')

end

/-- No test, case or handler is added, only statements in their blocks. -/
theorem Elif.AllProlongedTo.length_eq :
    ∀ {es es' : List Elif}, Elif.AllProlongedTo es es' → es'.length = es.length
  | _, _, .nil => rfl
  | _, _, .cons _ _ rest => congrArg (· + 1) rest.length_eq

theorem Case.AllProlongedTo.length_eq :
    ∀ {cs cs' : List Case}, Case.AllProlongedTo cs cs' → cs'.length = cs.length
  | _, _, .nil => rfl
  | _, _, .cons _ _ _ rest => congrArg (· + 1) rest.length_eq

theorem CatchBlock.AllProlongedTo.length_eq :
    ∀ {cs cs' : List CatchBlock}, CatchBlock.AllProlongedTo cs cs' → cs'.length = cs.length
  | _, _, .nil => rfl
  | _, _, .cons _ _ _ rest => congrArg (· + 1) rest.length_eq

namespace Comparison

/-! ## Comparisons without a difference -/

/-- A comparison that meets no difference; only ballots can stop it. -/
def IsThrough (checks : Comparison) : Prop := .differ ∉ checks

@[simp]
theorem not_isThrough_differ (rest : Comparison) : ¬ IsThrough (.differ :: rest) :=
  fun through => through List.mem_cons_self

@[simp]
theorem isThrough_append {first second : Comparison} :
    IsThrough (first ++ second) ↔ IsThrough first ∧ IsThrough second := by
  simp [IsThrough]

/-- What agrees meets no difference. -/
theorem isThrough_of_agrees {accepted : Ballot → Bool} {checks : Comparison}
    (agrees : (checks.verdict accepted).agrees = true) : checks.IsThrough := by
  induction checks with
  | nil => exact List.not_mem_nil
  | cons check rest ih =>
      cases check with
      | differ => cases agrees
      | ballot b =>
          cases counted : accepted b with
          | false => simp [verdict, counted] at agrees
          | true =>
              have later : (verdict accepted rest).agrees = true := by
                simpa [verdict, counted] using agrees
              simpa [IsThrough] using ih later

/-! ## Prolonged statements -/

variable {old new : Program}

/-- Where no difference is met, the prolonged side is compared by the same checks. -/
theorem steps_prolonged :
    (∀ s t, (statements old new s t).IsThrough → ∀ t', t.ProlongedTo t' →
      statements old new s t' = statements old new s t) ∧
    (∀ cs ds, (catchLists old new cs ds).IsThrough → ∀ ds', CatchBlock.AllProlongedTo ds ds' →
      catchLists old new cs ds' = catchLists old new cs ds) ∧
    (∀ ss ts, (blocks old new ss ts).IsThrough → ∀ ts', Statement.BlockProlongedTo ts ts' →
      blocks old new ss ts' = blocks old new ss ts) ∧
    (∀ cs ds, (caseLists old new cs ds).IsThrough → ∀ ds', Case.AllProlongedTo ds ds' →
      caseLists old new cs ds' = caseLists old new cs ds) ∧
    ∀ es fs, (elifLists old new es fs).IsThrough → ∀ fs', Elif.AllProlongedTo fs fs' →
      elifLists old new es fs' = elifLists old new es fs := by
  apply statements.mutual_induct
  -- the optional parts of a loop or a conditional decide which of them are compared
  case case8 =>
    intro first condition next body first' condition' next' body' start step inner through t' longer
    cases longer with
    | refl => rfl
    | forLoop _ starts steps inners =>
        cases starts <;> cases steps <;> cases first <;> cases next <;> simp_all [statements]
  case case10 =>
    intro condition body elifs last condition' body' elifs' last' inner others final through t'
      longer
    cases longer with
    | refl => rfl
    | ifElse _ inners others' finals =>
        have length := others'.length_eq
        cases finals <;> cases last <;> simp_all [statements]
  -- the numbers of cases and handlers are compared as well
  case case11 =>
    intro value cs value' ds inner through t' longer
    cases longer with
    | refl => rfl
    | switchOn _ longer =>
        have length := longer.length_eq
        simp_all [statements]
  case case12 =>
    intro body cs body' ds inner others through t' longer
    cases longer with
    | refl => rfl
    | tryCatch _ longer =>
        have length := longer.length_eq
        simp_all [statements]
  -- a list of which one side has ended
  case case18 =>
    intro cs ds ended through ds' longer
    cases longer with
    | nil => rfl
    | cons _ _ _ _ =>
        cases cs with
        | nil => simp [catchLists]
        | cons first _ =>
            cases first
            exact (ended _ _ _ _ _ _ _ _ rfl rfl).elim
  case case23 =>
    intro cs ds ended through ds' longer
    cases longer with
    | nil => rfl
    | cons _ _ _ _ =>
        cases cs with
        | nil => simp [caseLists]
        | cons first _ =>
            cases first
            exact (ended _ _ _ _ _ _ _ _ rfl rfl).elim
  case case25 =>
    intro es fs ended through fs' longer
    cases longer with
    | nil => rfl
    | cons _ _ _ =>
        cases es with
        | nil => simp [elifLists]
        | cons first _ =>
            cases first
            exact (ended _ _ _ _ _ _ rfl rfl).elim
  all_goals
    intros
    rename_i longer
    cases longer <;> simp_all [statements, blocks, elifLists, caseLists, catchLists, caseLabels]

/-- **A statement that agrees is compared by the same checks when it is prolonged.** -/
theorem statements_prolonged {s t t' : Statement} (through : (statements old new s t).IsThrough)
    (longer : t.ProlongedTo t') : statements old new s t' = statements old new s t :=
  steps_prolonged.1 s t through t' longer

end Comparison

namespace Session

/-- **Further statements do not matter.** If an old statement agrees with a new one, it agrees with
every statement that the new one is prolonged to, and comparing them leaves the same state. -/
theorem compare_prolonged {s t t' : Statement} (longer : t.ProlongedTo t') {before after : Session}
    (agrees : compare (.statements s t) before = .ok true after) :
    compare (.statements s t') before = .ok true after := by
  let c := before.context
  let checks := (CodePair.statements s t).checks c.old.program c.new.program
  obtain ⟨state, compared, -⟩ := Work.compare_gains c checks before.state
  have answer : compare (.statements s t) before = .ok _ { before with state } :=
    perform_eq compared
  obtain ⟨agreed, rfl⟩ := EStateM.Result.ok.inj (answer.symm.trans agrees)
  have same : (CodePair.statements s t').checks c.old.program c.new.program = checks :=
    Comparison.statements_prolonged (Comparison.isThrough_of_agrees agreed) longer
  refine perform_eq ?_
  rw [same, ← agreed]
  exact compared

/-- A loop goes on behind a conditional that goes on behind a jump, on the new side alone. The class
that both tests mention is voted for once for each of them. -/
theorem compare_prolonged_of_nested :
    let p := Program.single "foo" "f"
    let test := Condition.boolean (.typeConstant (.class "foo" []))
    let s := Statement.whileLoop test [.ifElse test [.breakLoop] [] none]
    let t := Statement.whileLoop test
      [.ifElse test [.breakLoop, .throwValue .nullConstant] [] none, .returnValue none]
    let before := start p ∅ p ∅ default
    s.ProlongedTo t ∧ ∃ after, compare (.statements s s) before = .ok true after ∧
      compare (.statements s t) before = .ok true after ∧
      after.state.ledger.tallyOf (.type ⟨0⟩ ⟨0⟩) = 2 := by
  intro p test s t before
  have longer : s.ProlongedTo t := by
    refine .whileLoop test (.cons ?_ (.further [.returnValue none]))
    exact .ifElse test (.cons (.refl _) (.further [.throwValue .nullConstant])) .nil .none
  let vote := Ballot.type ⟨0⟩ ⟨0⟩
  have known : p.typeNamed? "foo" = some ⟨0⟩ := by decide
  have checks : (CodePair.statements s s).checks p p = [.ballot vote, .ballot vote] := by
    simp [CodePair.checks, s, test, vote, Comparison.statements, Comparison.blocks,
      Comparison.elifLists, Comparison.conditions, Comparison.instructions, Comparison.typeSigs,
      Comparison.typeArgs, Comparison.typeNames, Comparison.typePair?, Comparison.same, known]
  have run : ∃ state, Work.compare before.context [.ballot vote, .ballot vote] before.state =
      .ok true state ∧ state.ledger.tallyOf vote = 2 := ⟨_, rfl, rfl⟩
  rw [← checks] at run
  obtain ⟨state, compared, tally⟩ := run
  have agrees : compare (.statements s s) before = .ok true { before with state } :=
    perform_eq compared
  exact ⟨longer, _, agrees, compare_prolonged longer agrees, tally⟩

end Session

end Namesake
