import Namesake.Proofs.PassTrails
import Namesake.Proofs.Tallies

/-! # Comparing does not look at tallies

Two sessions about the same programs whose ledgers differ in their tallies at most come to the same
answer when they compare two pieces of code, and give the same votes
(`Session.compare_ignores_tallies`). So does a session that compares the same pieces again, since
votes are all that the first comparison left behind.
-/

namespace Namesake

/-- Two pieces of code of the same kind, an old one and a new one. -/
inductive CodePair where
  | statements (a b : Statement)
  | instructions (a b : Instruction)
  | conditions (a b : Condition)
  | types (a b : TypeSig)
  | typeNames (a b : String)
  | descriptors (a b : String)
  | methods (a b : MethodId)
  | fields (a b : FieldId)

/-- The checks that compare two pieces of code of two programs. -/
def CodePair.checks (old new : Program) : CodePair → Comparison
  | statements a b => Comparison.statements old new a b
  | instructions a b => Comparison.instructions old new a b
  | conditions a b => Comparison.conditions old new a b
  | types a b => Comparison.typeSigs old new a b
  | typeNames a b => Comparison.typeNames old new a b
  | descriptors a b => Comparison.descriptors old new a b
  | methods a b => Comparison.methods old new (old.method a) (new.method b)
  | fields a b => Comparison.fields old new (old.field a) (new.field b)

/-- What comparing does to a state: votes are given, and nothing counts as a change. -/
structure State.Gains (votes : List Ballot) (s s' : State) : Prop where
  ledger : s.ledger.Gains votes s'.ledger
  changes : s'.changes = s.changes

/-- The votes a comparison gives: of the ballots that are tried, those that count. -/
def Comparison.votes (c : Context) (l : Ledger) (checks : Comparison) : List Ballot :=
  (triedBallots c l checks).filter fun b => b.counts c l

/-- **A comparison gives votes**, and does nothing else. -/
theorem Work.compare_gains (c : Context) (checks : Comparison) (s : State) :
    ∃ s', Work.compare c checks s =
        .ok (checks.verdict (Ballot.accepted c s.ledger)).agrees s' ∧
      s.Gains (checks.votes c s.ledger) s' :=
  ⟨_, compare_eq c checks s, s.ledger.castAll_gains c _, rfl⟩

/-- In ledgers that differ in their tallies at most, a comparison has the same verdict and gives the
same votes. -/
theorem Ledger.SameButTallies.comparison {l m : Ledger} (same : l.SameButTallies m) (c : Context)
    (checks : Comparison) : checks.verdict (Ballot.accepted c m) =
        checks.verdict (Ballot.accepted c l) ∧ checks.votes c m = checks.votes c l := by
  have accepted : Ballot.accepted c m = Ballot.accepted c l := funext (same.accepted c)
  have counts : (fun b => Ballot.counts c m b) = fun b => Ballot.counts c l b :=
    funext (same.counts c)
  refine ⟨by rw [accepted], ?_⟩
  rw [Comparison.votes, triedBallots, accepted, counts, Comparison.votes, triedBallots]

namespace Session

/-- Compare two pieces of code. -/
def compare (pair : CodePair) : EStateM MergeError Session Bool :=
  perform fun c => Work.compare c (pair.checks c.old.program c.new.program)

/-- What comparing does to a session: votes are given. Its programs, names, settings and output, its
pipeline and the count of its changes are the same as before. -/
structure Gains (votes : List Ballot) (s s' : Session) : Prop where
  state : s.state.Gains votes s'.state
  rest : s' = { s with state := s'.state }

/-- **Comparing does not look at tallies.** Sessions that differ in their tallies at most give the
same answer and the same votes, whether the two pieces agree or not, and give both once more when
asked again. -/
theorem compare_ignores_tallies (pair : CodePair) {s t : Session} (about : t.context = s.context)
    (same : s.state.ledger.SameButTallies t.state.ledger) :
    let c := s.context
    let checks := pair.checks c.old.program c.new.program
    let agrees := (checks.verdict (Ballot.accepted c s.state.ledger)).agrees
    let votes := checks.votes c s.state.ledger
    ∃ s' t' s'' : Session,
      compare pair s = .ok agrees s' ∧ s.Gains votes s' ∧
      compare pair t = .ok agrees t' ∧ t.Gains votes t' ∧
      compare pair s' = .ok agrees s'' ∧ s'.Gains votes s'' := by
  intro c checks agrees votes
  have runs : ∀ u : Session, u.context = c → s.state.ledger.SameButTallies u.state.ledger →
      ∃ u', compare pair u = .ok agrees u' ∧ u.Gains votes u' := by
    intro u about same
    obtain ⟨verdict, given⟩ := same.comparison c checks
    obtain ⟨state, done, gains⟩ := Work.compare_gains c checks u.state
    rw [verdict] at done
    rw [given] at gains
    refine ⟨{ u with state }, perform_eq ?_, gains, rfl⟩
    rw [about]
    exact done
  obtain ⟨s', first, gained⟩ := runs s rfl (.refl _)
  obtain ⟨t', second, gained'⟩ := runs t about same
  have about' : s'.context = s.context := by rw [gained.rest]
  obtain ⟨s'', again, gained''⟩ := runs s' about' gained.state.ledger.same
  exact ⟨s', t', s'', first, gained, second, gained', again, gained''⟩

/-- Two casts to the same class differ in what they cast, after a vote for the class. A session that
had such a vote has two of them then, one that had none has one, and neither finds the casts
equal. -/
theorem compare_ignores_tallies_of_voted :
    let p := Program.single "foo" "f"
    let s := start p ∅ p ∅ default
    let vote := Ballot.type ⟨0⟩ ⟨0⟩
    let t := { s with state := { s.state with ledger := vote.cast s.context s.state.ledger } }
    let pair := CodePair.instructions (.cast (.class "foo" []) (.stringConstant "a"))
      (.cast (.class "foo" []) .nullConstant)
    t.context = s.context ∧ s.state.ledger.SameButTallies t.state.ledger ∧
      s.state.ledger ≠ t.state.ledger ∧
      ∃ s' t', compare pair s = .ok false s' ∧ s'.state.ledger.tallyOf vote = 1 ∧
        compare pair t = .ok false t' ∧ t'.state.ledger.tallyOf vote = 2 := by
  intro p s vote t pair
  have same : s.state.ledger.SameButTallies t.state.ledger := vote.cast_sameButTallies s.context _
  have none : s.state.ledger.tallyOf vote = 0 := rfl
  have one : t.state.ledger.tallyOf vote = 1 := rfl
  have different : s.state.ledger ≠ t.state.ledger := by
    intro equal
    rw [← equal, none] at one
    cases one
  have known : p.typeNamed? "foo" = some ⟨0⟩ := by decide
  have checks : pair.checks s.context.old.program s.context.new.program =
      [.ballot vote, .differ] := by
    change Comparison.instructions p p _ _ = _
    simp [Comparison.instructions, Comparison.typeSigs, Comparison.typeArgs, Comparison.typeNames,
      Comparison.typePair?, Comparison.same, known, vote]
  obtain ⟨s', t', -, first, gained, second, gained', -⟩ :=
    compare_ignores_tallies pair (s := s) (t := t) rfl same
  rw [checks] at first gained second gained'
  have once : (Comparison.votes s.context s.state.ledger [.ballot vote, .differ]).count vote = 1 :=
    rfl
  refine ⟨rfl, same, different, s', t', first, ?_, second, ?_⟩
  · rw [gained.state.ledger.tally, none, once]
  · rw [gained'.state.ledger.tally, one, once]

end Session

end Namesake
