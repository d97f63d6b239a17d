import Namesake.Proofs.Handing

/-! # Calls on a session

Besides merging, a session can be asked to seed itself, to take a vote, to confirm a type, or to run
any single pass. Calls may come in any number and order; what they do is a trail of warranted
actions each, so they lead to lawful ledgers only (`Session.lawful_afterCalls`).
-/

namespace Namesake

/-- The old member a ballot is about is part of a program. Ballots about types name no member. -/
def Ballot.IsAbout (p : Program) : Ballot → Prop
  | type _ _ => True
  | method old _ => p.HasMethod old
  | field old _ => p.HasField old

instance (p : Program) (b : Ballot) : Decidable (b.IsAbout p) := by
  cases b <;> unfold Ballot.IsAbout <;> infer_instance

namespace Session

/-- Something a session can be asked to do. -/
inductive Call where
  /-- Look at the names the new build is known to have. -/
  | seed
  | vote (ballot : Ballot)
  | confirmType (old : Handle TypeId) (new : TypeId)
  | pass (pass : Pass)
deriving DecidableEq

/-- Carry out a call. -/
def Call.make : Call → EStateM MergeError Session Unit
  | seed => Session.seed
  | vote b => perform fun c => Action.perform c (.vote b)
  | confirmType old new => perform fun c => Action.perform c (.confirmType old new)
  | pass p => perform p.run

/-- The session a call leaves behind, failed or not. -/
def afterCall (s : Session) (call : Call) : Session :=
  match call.make s with
  | .ok () s' | .error _ s' => s'

/-- The session calls leave behind, one after the other. -/
def afterCalls (s : Session) (calls : List Call) : Session := calls.foldl afterCall s

variable {c : Context} {pool : Pool c.old.program c.new.program}

theorem start_lawful (old : Program) (names : MappingSet) (new : Program) (known : MappingSet)
    (settings : MergeSettings) (pool : Pool old new) :
    (start old names new known settings).state.ledger.Lawful (.of old names new settings) pool :=
  Ledger.empty_lawful _ _

theorem coherent_of_validate {old new : Program} (validOld : old.validate = .ok ())
    (validNew : new.validate = .ok ()) (names : MappingSet) (settings : MergeSettings) :
    (Context.of old names new settings).Coherent :=
  ⟨Program.coherent_of_validate validOld, Program.coherent_of_validate validNew⟩

/-- What a call names is well-formed: the ballot it casts, and the types it confirms. -/
def Call.IsWellFormed (c : Context) (pool : Pool c.old.program c.new.program) : Call → Prop
  | vote b => b.IsWellFormed c pool
  | confirmType old new => (∀ o, old = .real o → pool.oldType o) ∧ pool.type new
  | seed | pass _ => True

/-- With everything in the pool, calls are well-formed if votes are about old members that
exist. -/
theorem formed_of_isAbout {old : Program} {names : MappingSet} {new : Program}
    {settings : MergeSettings} {calls : List Call}
    (about : ∀ b, Call.vote b ∈ calls → b.IsAbout old) (call : Call) (member : call ∈ calls) :
    call.IsWellFormed (.of old names new settings) (.unlimited new) := by
  cases call with
  | vote b =>
      have aboutOld := about b member
      cases b with
      | type o n => exact ⟨trivial, trivial⟩
      | method o n => exact ⟨aboutOld, trivial⟩
      | field o n => exact ⟨aboutOld, trivial⟩
  | confirmType old new => exact ⟨fun _ _ => trivial, trivial⟩
  | seed | pass => trivial

/-- The pairs of methods a call hands over. -/
def handedByCall (s : Session) : Call → List (MethodId × MethodId)
  | .pass p => p.handed s.context s.state.ledger
  | .seed | .vote _ | .confirmType _ _ => []

/-- The pairs of methods calls hand over, one call after the other. -/
def handedByCalls (s : Session) : List Call → List (MethodId × MethodId)
  | [] => []
  | call :: rest => s.handedByCall call ++ (s.afterCall call).handedByCalls rest

theorem handedByCall_sublist (s : Session) (call : Call) :
    (s.handedByCall call).Sublist s.state.ledger.methods.unmergedPairs := by
  cases call with
  | pass p => exact p.handed_sublist s.context s.state.ledger
  | seed | vote | confirmType => exact List.nil_sublist _

private theorem mergedMethod_not_mem_seedActions {c : Context} {known : MappingSet}
    {o : MethodId} : .mergedMethod o ∉ seedActions c known := by
  intro member
  obtain ⟨⟨name, plain⟩, -, seeded⟩ := List.mem_filterMap.mp member
  simp only [Option.bind_eq_bind, Option.bind_eq_some_iff, Option.pure_def, Option.some.injEq,
    reduceCtorEq, and_false, exists_false] at seeded

/-- **What a call does.** It leads by a trail of warranted actions, which mark the methods that are
handed over, to the ledger of another session about the same programs. -/
theorem afterCall_trail (coherent : c.Coherent) {s : Session} (about : s.context = c)
    (lawful : s.state.ledger.Lawful c pool) {call : Call} (formed : call.IsWellFormed c pool) :
    ∃ actions reached, Trail c pool s.state actions reached ∧ (s.afterCall call).context = c ∧
      (s.afterCall call).state.ledger = reached.ledger ∧
      ∀ o, .mergedMethod o ∈ actions ↔ ∃ n, (o, n) ∈ s.handedByCall call := by
  subst about
  have idle {actions : List Action} (absent : ∀ o, .mergedMethod o ∉ actions) (o : MethodId) :
      .mergedMethod o ∈ actions ↔ ∃ n : MethodId, (o, n) ∈ ([] : List (MethodId × MethodId)) :=
    ⟨fun member => absurd member (absent o), nofun⟩
  cases call with
  | seed =>
      have seeding : s.afterCall .seed = if s.seeded then s else
          { s with state := { s.seedState with changes := 0 }, seeded := true } := by
        simp only [afterCall, Call.make, seed_eq]
      rw [seeding]
      cases s.seeded with
      | true => exact ⟨[], s.state, .done _, rfl, rfl, idle nofun⟩
      | false =>
          exact ⟨_, s.seedState, seedState_trail coherent lawful, rfl, rfl,
            idle fun o => mergedMethod_not_mem_seedActions⟩
  | vote b =>
      have cast : s.afterCall (.vote b) =
          { s with state := s.state.after s.context (.vote b) } := by
        simp only [afterCall, Call.make, perform, Action.perform_eq]
      rw [cast]
      exact ⟨[.vote b], _, .single formed, rfl, rfl, idle (by simp)⟩
  | confirmType old new =>
      have settled : s.afterCall (.confirmType old new) =
          { s with state := s.state.after s.context (.confirmType old new) } := by
        simp only [afterCall, Call.make, perform, Action.perform_eq]
      rw [settled]
      exact ⟨[.confirmType old new], _, .single formed, rfl, rfl, idle (by simp)⟩
  | pass p =>
      obtain ⟨reached, actions, done, trail, takes⟩ := p.run_trail coherent lawful
      have ran : s.afterCall (.pass p) = { s with state := reached } := by
        simp only [afterCall, Call.make, perform_eq done]
      rw [ran]
      exact ⟨actions, reached, trail, rfl, rfl, Pass.mergedMethod_mem_iff takes⟩

/-- A call leads from a lawful ledger to a lawful one, and hands over what it marks. -/
theorem lawful_afterCall (coherent : c.Coherent) {s : Session} (about : s.context = c)
    (lawful : s.state.ledger.Lawful c pool) {call : Call} (formed : call.IsWellFormed c pool) :
    (s.afterCall call).context = c ∧ (s.afterCall call).state.ledger.Lawful c pool ∧
      ∀ given, s.state.ledger.methods.HandedOver given →
        (s.afterCall call).state.ledger.methods.HandedOver (given ++ s.handedByCall call) := by
  obtain ⟨actions, reached, trail, context, ledger, marked⟩ :=
    afterCall_trail coherent about lawful formed
  refine ⟨context, ?_, ?_⟩
  · rw [ledger]
    exact trail.lawful coherent.old lawful
  · intro given handed
    rw [ledger]
    exact trail.handedOver coherent.old lawful (handedByCall_sublist s call) marked handed

/-- **What calls do.** They lead from lawful ledgers to lawful ones, and hand over what they
mark. -/
theorem lawful_afterCalls (coherent : c.Coherent) {s : Session} (about : s.context = c)
    (lawful : s.state.ledger.Lawful c pool) {calls : List Call}
    (formed : ∀ call ∈ calls, call.IsWellFormed c pool) :
    (s.afterCalls calls).context = c ∧ (s.afterCalls calls).state.ledger.Lawful c pool ∧
      ∀ given, s.state.ledger.methods.HandedOver given →
        (s.afterCalls calls).state.ledger.methods.HandedOver (given ++ s.handedByCalls calls) := by
  induction calls generalizing s with
  | nil =>
      refine ⟨about, lawful, ?_⟩
      intro given handed
      rw [handedByCalls, List.append_nil]
      exact handed
  | cons call rest ih =>
      rw [List.forall_mem_cons] at formed
      obtain ⟨context, lawful', handed'⟩ := lawful_afterCall coherent about lawful formed.1
      obtain ⟨context'', lawful'', handed''⟩ := ih context lawful' formed.2
      refine ⟨context'', lawful'', ?_⟩
      intro given handed
      rw [handedByCalls, ← List.append_assoc]
      exact handed'' _ (handed' given handed)

/-! ## What calls leave alone -/

/-- A call leaves the pipeline and the names of the new build alone. -/
private theorem afterCall_unchanged (s : Session) (call : Call) :
    (s.afterCall call).steps = s.steps ∧ (s.afterCall call).output = s.output := by
  have performed (work : Context → Work Unit) (made : call.make = perform work) :
      (s.afterCall call).steps = s.steps ∧ (s.afterCall call).output = s.output := by
    unfold afterCall
    rw [made, perform]
    cases work s.context s.state <;> exact ⟨rfl, rfl⟩
  cases call with
  | seed =>
      simp only [afterCall, Call.make, seed_eq]
      split_ifs <;> exact ⟨rfl, rfl⟩
  | vote b => exact performed (Action.perform · (.vote b)) rfl
  | confirmType old new => exact performed (Action.perform · (.confirmType old new)) rfl
  | pass p => exact performed p.run rfl

theorem steps_afterCall (s : Session) (call : Call) : (s.afterCall call).steps = s.steps :=
  (s.afterCall_unchanged call).1

theorem output_afterCall (s : Session) (call : Call) : (s.afterCall call).output = s.output :=
  (s.afterCall_unchanged call).2

theorem steps_afterCalls (s : Session) (calls : List Call) :
    (s.afterCalls calls).steps = s.steps := by
  induction calls generalizing s with
  | nil => rfl
  | cons call rest ih => exact (ih (s.afterCall call)).trans (s.steps_afterCall call)

theorem output_afterCalls (s : Session) (calls : List Call) :
    (s.afterCalls calls).output = s.output := by
  induction calls generalizing s with
  | nil => rfl
  | cons call rest ih => exact (ih (s.afterCall call)).trans (s.output_afterCall call)

end Session

end Namesake
