import Mathlib.Data.List.Count
import Namesake.Proofs.OpenLedgers
import Namesake.Proofs.TallyIndependence

/-! # Comparing the other way round

Comparing a new instruction with an old one takes the checks of comparing the old one with the new
one, each ballot with its sides exchanged (`Comparison.mirrored_values`). While nothing is confirmed
a ballot is accepted exactly if the exchanged one is (`Ballot.isCompatible_mirrored`). So two
sessions about the same programs, one with their roles exchanged, come to the same answer, and the
tallies of one are those of the other transposed (`Session.compare_expressions_mirrored`).
Statements are not like that, as only the new side of two blocks may go on where the other ends.
-/

namespace Namesake

/-! ## Exchanging the sides -/

namespace Ballot

/-- The ballot with its sides exchanged. -/
def mirrored : Ballot → Ballot
  | type old new => type new old
  | method old new => method new old
  | field old new => field new old

theorem mirrored_injective : Function.Injective mirrored := by
  intro b b' same
  cases b <;> cases b' <;> cases same <;> rfl

end Ballot

/-- The check with its sides exchanged. -/
def Check.mirrored : Check → Check
  | ballot b => ballot b.mirrored
  | differ => differ

namespace Comparison

/-- The comparison with its sides exchanged. -/
def mirrored (checks : Comparison) : Comparison := checks.map Check.mirrored

@[simp]
theorem mirrored_nil : mirrored [] = [] := rfl

@[simp]
theorem mirrored_differ (rest : Comparison) :
    mirrored (.differ :: rest) = .differ :: mirrored rest := rfl

@[simp]
theorem mirrored_ballot (b : Ballot) (rest : Comparison) :
    mirrored (.ballot b :: rest) = .ballot b.mirrored :: mirrored rest := rfl

@[simp]
theorem mirrored_append (first second : Comparison) :
    mirrored (first ++ second) = mirrored first ++ mirrored second := List.map_append

@[simp]
theorem mirrored_same {α : Type} [DecidableEq α] (a b : α) : mirrored (same a b) = same b a := by
  by_cases equal : a = b
  · simp [same, equal]
  · simp [same, equal, Ne.symm equal]

theorem mirrored_zip {α β : Type} {checks : α → β → Comparison} {checks' : β → α → Comparison}
    (each : ∀ a b, mirrored (checks a b) = checks' b a) (as : List α) (bs : List β) :
    mirrored (zip checks as bs) = zip checks' bs as := by
  induction as generalizing bs with
  | nil => cases bs <;> rfl
  | cons a as ih =>
      cases bs with
      | nil => rfl
      | cons b bs =>
          have later := ih bs
          simp only [zip, List.zip_cons_cons, List.flatMap_cons, mirrored_append, each] at later ⊢
          rw [later]

/-! ## Names and types -/

variable (old new : Program)

theorem typePair?_swap (a b : String) :
    typePair? new old b a = (typePair? old new a b).map Prod.swap := by
  unfold typePair?
  cases old.typeNamed? a <;> cases new.typeNamed? b <;> rfl

@[simp]
theorem mirrored_typeNames (a b : String) :
    mirrored (typeNames old new a b) = typeNames new old b a := by
  rw [typeNames, typeNames, typePair?_swap old new]
  cases typePair? old new a b with
  | none => exact mirrored_same a b
  | some pair => rfl

@[simp]
theorem mirrored_descriptors (a b : String) :
    mirrored (descriptors old new a b) = descriptors new old b a := by
  unfold descriptors
  obtain ⟨depth, leaf⟩ := Descriptor.elementClass a
  obtain ⟨depth', leaf'⟩ := Descriptor.elementClass b
  cases leaf with
  | none => cases leaf' <;> exact mirrored_same a b
  | some o =>
      cases leaf' with
      | none => exact mirrored_same a b
      | some n =>
          by_cases level : depth = depth'
          · dsimp only
            rw [if_pos level, if_pos level.symm, typePair?_swap old new]
            cases typePair? old new o n with
            | none => exact mirrored_same a b
            | some pair => rfl
          · dsimp only
            rw [if_neg level, if_neg (Ne.symm level)]
            exact mirrored_same a b

@[simp]
theorem mirrored_methodDescriptors (a b : String) :
    mirrored (methodDescriptors old new a b) = methodDescriptors new old b a := by
  have params := mirrored_zip (mirrored_descriptors old new)
  simp [methodDescriptors, params]

theorem mirrored_signatures :
    (∀ a b, mirrored (typeSigs old new a b) = typeSigs new old b a) ∧
    ∀ as bs, mirrored (typeArgs old new as bs) = typeArgs new old bs as := by
  apply typeSigs.mutual_induct
  -- what no rule compares, no rule compares the other way round
  case case5 =>
    intros
    rw [typeSigs, typeSigs]
    · rfl
    all_goals
      intros
      solve_by_elim only [*]
  case case10 =>
    intros
    rw [typeArgs, typeArgs]
    · rfl
    all_goals
      intros
      solve_by_elim only [*]
  all_goals
    intros
    simp_all [typeSigs, typeArgs]

@[simp]
theorem mirrored_typeSigs (s t : TypeSig) :
    mirrored (typeSigs old new s t) = typeSigs new old t s :=
  (mirrored_signatures old new).1 s t

@[simp]
theorem mirrored_locals (a b : Local) : mirrored (locals old new a b) = locals new old b a := by
  obtain ⟨_, type⟩ := a
  obtain ⟨_, type'⟩ := b
  cases type <;> cases type' <;> simp [locals, optionalTypes]

/-! ## Members -/

@[simp]
theorem mirrored_fieldRefs (a b : MemberRef) :
    mirrored (fieldRefs old new a b) = fieldRefs new old b a := by
  unfold fieldRefs
  rw [typePair?_swap old new]
  cases typePair? old new a.owner b.owner with
  | none => simp
  | some pair =>
      obtain ⟨o, n⟩ := pair
      cases found : old.findField? o a.name <;> cases found' : new.findField? n b.name <;>
        simp [found, found', Ballot.mirrored]

@[simp]
theorem mirrored_methodRefs (findOld findNew : TypeId → String → String → Option MethodId)
    (a b : MemberRef) : mirrored (methodRefs old new findOld findNew a b) =
      methodRefs new old findNew findOld b a := by
  unfold methodRefs
  rw [typePair?_swap old new]
  cases typePair? old new a.owner b.owner with
  | none => simp
  | some pair =>
      obtain ⟨o, n⟩ := pair
      cases found : findOld o a.name a.descriptor <;>
        cases found' : findNew n b.name b.descriptor <;> simp [found, found', Ballot.mirrored]

/-! ## Instructions and conditions -/

/-- **Instructions and conditions are compared by the same checks the other way round.** -/
theorem mirrored_values :
    (∀ i j, mirrored (instructions old new i j) = instructions new old j i) ∧
    (∀ x y, mirrored (conditions old new x y) = conditions new old y x) ∧
    (∀ xs ys, mirrored (conditionLists old new xs ys) = conditionLists new old ys xs) ∧
    ∀ is js, mirrored (instructionLists old new is js) = instructionLists new old js is := by
  apply instructions.mutual_induct
  -- arrays of which one side alone lists its items
  case case18 =>
    intro element size initial element' size' initial' none some ih
    cases initial <;> cases initial' <;> simp_all [instructions]
  -- what no rule compares, no rule compares the other way round
  case case26 =>
    intros
    rw [instructions, instructions]
    · rfl
    all_goals
      intros
      solve_by_elim only [*]
  case case32 =>
    intros
    rw [conditions, conditions]
    · rfl
    all_goals
      intros
      solve_by_elim only [*]
  case case34 =>
    intro xs ys ended
    cases xs with
    | nil => simp [conditionLists]
    | cons x xs =>
        cases ys with
        | nil => simp [conditionLists]
        | cons y ys => exact (ended x xs y ys rfl rfl).elim
  case case36 =>
    intro is js ended
    cases is with
    | nil => simp [instructionLists]
    | cons i is =>
        cases js with
        | nil => simp [instructionLists]
        | cons j js => exact (ended i is j js rfl rfl).elim
  all_goals
    intros
    simp_all [instructions, conditions, conditionLists, instructionLists]

/-- A comparison tries the exchanged ballots the other way round, and stops where it does. -/
theorem verdict_mirrored {accepted accepted' : Ballot → Bool}
    (alike : ∀ b, accepted' b.mirrored = accepted b) (checks : Comparison) :
    checks.mirrored.verdict accepted' =
      ⟨(checks.verdict accepted).agrees, (checks.verdict accepted).ballots.map .mirrored⟩ := by
  induction checks with
  | nil => rfl
  | cons check rest ih =>
      cases check with
      | differ => rfl
      | ballot b =>
          rw [mirrored_ballot, verdict, verdict, alike]
          cases accepted b with
          | false => rfl
          | true => simp [ih]

end Comparison

/-! ## Ballots and tallies -/

namespace Ballot

/-- With the programs exchanged, a ballot may be cast exactly if its mirror image may. -/
theorem isCompatible_mirrored (old new : Program) (b : Ballot) :
    b.mirrored.isCompatible new old = b.isCompatible old new := by
  cases b with
  | type o n => rfl
  | method o n =>
      simp only [mirrored, isCompatible]
      rw [Bool.or_comm (new.method n).isSynthetic, Bool.beq_comm]
  | field o n => exact Bool.beq_comm

end Ballot

namespace Ledger

/-- The tallies of one ledger are those of another with the old and the new side exchanged. -/
structure IsTransposeOf (m l : Ledger) : Prop where
  types : ∀ o n, m.types.tally (.real n) o = l.types.tally (.real o) n
  methods : ∀ o n, m.methods.tally (.real n) o = l.methods.tally (.real o) n
  fields : ∀ o n, m.fields.tally (.real n) o = l.fields.tally (.real o) n

theorem isTransposeOf_iff {m l : Ledger} :
    m.IsTransposeOf l ↔ ∀ b : Ballot, m.tallyOf b.mirrored = l.tallyOf b := by
  refine ⟨?_, fun alike => ⟨fun o n => alike (.type o n), fun o n => alike (.method o n),
    fun o n => alike (.field o n)⟩⟩
  intro transpose b
  cases b with
  | type o n => exact transpose.types o n
  | method o n => exact transpose.methods o n
  | field o n => exact transpose.fields o n

end Ledger

/-! ## Comparing with the roles exchanged -/

/-- **A comparison comes out the same with its sides exchanged**, in open ledgers that are
transposes of each other, and leaves transposes behind. -/
theorem Work.compare_mirrored (c c' : Context) (oldRole : c'.old.program = c.new.program)
    (newRole : c'.new.program = c.old.program) {s s' : State} (isOpen : s.ledger.IsOpen)
    (isOpen' : s'.ledger.IsOpen) (transpose : s'.ledger.IsTransposeOf s.ledger)
    (checks : Comparison) :
    ∃ agrees after after', Work.compare c checks s = .ok agrees after ∧
      Work.compare c' checks.mirrored s' = .ok agrees after' ∧
      after'.ledger.IsTransposeOf after.ledger := by
  have alike : ∀ b : Ballot, b.mirrored.isCompatible c'.old.program c'.new.program =
      b.isCompatible c.old.program c.new.program := by
    rw [oldRole, newRole]
    exact Ballot.isCompatible_mirrored _ _
  have accepted : ∀ b : Ballot, b.mirrored.accepted c' s'.ledger = b.accepted c s.ledger := by
    intro b
    rw [(isOpen'.judged _).1, (isOpen.judged _).1, alike]
  have counts : ∀ b : Ballot, b.mirrored.counts c' s'.ledger = b.counts c s.ledger := by
    intro b
    rw [(isOpen'.judged _).2, (isOpen.judged _).2, alike]
  have verdict := Comparison.verdict_mirrored accepted checks
  have votes : checks.mirrored.votes c' s'.ledger =
      (checks.votes c s.ledger).map Ballot.mirrored := by
    rw [Comparison.votes, triedBallots, verdict, Comparison.votes, triedBallots, List.filter_map]
    exact congrArg _ (List.filter_congr fun b _ => counts b)
  obtain ⟨after, compared, gains⟩ := Work.compare_gains c checks s
  obtain ⟨after', compared', gains'⟩ := Work.compare_gains c' checks.mirrored s'
  rw [verdict] at compared'
  refine ⟨_, after, after', compared, compared', ?_⟩
  rw [Ledger.isTransposeOf_iff] at transpose ⊢
  intro b
  rw [gains.ledger.tally, gains'.ledger.tally, transpose, votes,
    List.count_map_of_injective _ _ Ballot.mirrored_injective]

namespace Session

/-- Two sessions come to the same answer, one about a pair of pieces and the other about another
pair, and the tallies the second is left with are the transposes of those of the first. -/
def AnswersTransposed (s s' : Session) (pair pair' : CodePair) : Prop :=
  ∃ agrees after after', compare pair s = .ok agrees after ∧
    compare pair' s' = .ok agrees after' ∧
    after'.state.ledger.IsTransposeOf after.state.ledger

/-- **Comparing expressions is symmetric.** Whatever the two programs, a session that has just
started and one that has just started with their roles exchanged come to the same answer, the one
about two instructions and the other about the same two the other way round, and their tallies are
transposes of each other. This is so whether the two agree or differ somewhere, and for two
conditions as well. -/
theorem compare_expressions_mirrored (old new : Program) (names names' known known' : MappingSet)
    (settings settings' : MergeSettings) :
    let s := start old names new known settings
    let s' := start new names' old known' settings'
    (∀ i j, s.AnswersTransposed s' (.instructions i j) (.instructions j i)) ∧
    ∀ x y, s.AnswersTransposed s' (.conditions x y) (.conditions y x) := by
  intro s s'
  have isOpen : State.initial.ledger.IsOpen := Ledger.empty_isOpen
  have transpose : State.initial.ledger.IsTransposeOf State.initial.ledger :=
    ⟨fun _ _ => rfl, fun _ _ => rfl, fun _ _ => rfl⟩
  have answers : ∀ pair pair' : CodePair,
      (pair.checks old new).mirrored = pair'.checks new old →
        s.AnswersTransposed s' pair pair' := by
    intro pair pair' exchanged
    obtain ⟨agrees, after, after', compared, compared', left⟩ :=
      Work.compare_mirrored s.context s'.context rfl rfl isOpen isOpen transpose
        (pair.checks old new)
    rw [exchanged] at compared'
    exact ⟨agrees, _, _, perform_eq compared, perform_eq compared', left⟩
  refine ⟨?_, ?_⟩
  · intro i j
    exact answers _ _ ((Comparison.mirrored_values old new).1 i j)
  · intro x y
    exact answers _ _ ((Comparison.mirrored_values old new).2.1 x y)

end Session

end Namesake
