import Namesake.Proofs.Cycles
import Namesake.Proofs.Moves
import Namesake.Proofs.Reachable

/-! # Names are withheld

What an operation asks of the session it runs in are requests: votes, confirmations, marks, and
resets of the count of changes. Passes and seeding are made of requests. Neither a request nor a
move of a run touches the names of the new build, and a merge carries names over only behind the
last move. So the names are what they were at every point before that, and a merge that fails leaves
them and its pipeline as it found them (`Session.Unfinished.withholds_output`).
-/

namespace Namesake

namespace Session

/-! ## Requests -/

/-- Something an operation can ask of the session it runs in. -/
inductive Request where
  | act (action : Action)
  /-- Reset the count of changes. -/
  | reset
deriving DecidableEq, Repr

/-- Carry out a request. -/
def Request.make : Request → EStateM MergeError Session Unit
  | act a => perform fun c => a.perform c
  | reset => perform fun _ => modify fun s => s.takeChanges.2

/-- The session a request leaves behind, failed or not. -/
def afterRequest (s : Session) (request : Request) : Session :=
  match request.make s with
  | .ok () s' | .error _ s' => s'

/-- The session requests leave behind, one after the other. -/
def afterRequests (s : Session) (requests : List Request) : Session :=
  requests.foldl afterRequest s

/-- A request changes the state and nothing else. -/
theorem exists_state_of_afterRequest (s : Session) (request : Request) :
    ∃ state, s.afterRequest request = { s with state } := by
  have performed (work : Context → Work Unit) (made : request.make = perform work) :
      ∃ state, s.afterRequest request = { s with state } := by
    unfold afterRequest
    rw [made]
    cases done : perform work s with
    | ok _ s' => exact exists_state_of_perform (.inl ⟨(), done⟩)
    | error e s' => exact exists_state_of_perform (.inr ⟨e, done⟩)
  cases request with
  | act a => exact performed (fun c => a.perform c) rfl
  | reset => exact performed (fun _ => modify fun s => s.takeChanges.2) rfl

/-- Requests change the state and nothing else. -/
theorem exists_state_of_afterRequests (s : Session) (requests : List Request) :
    ∃ state, s.afterRequests requests = { s with state } := by
  induction requests generalizing s with
  | nil => exact ⟨s.state, rfl⟩
  | cons request rest ih =>
      obtain ⟨first, same⟩ := s.exists_state_of_afterRequest request
      obtain ⟨last, same'⟩ := ih { s with state := first }
      refine ⟨last, ?_⟩
      have next : s.afterRequests (request :: rest) =
          (s.afterRequest request).afterRequests rest := rfl
      rw [next, same, same']

theorem afterRequests_append (s : Session) (first second : List Request) :
    s.afterRequests (first ++ second) = (s.afterRequests first).afterRequests second :=
  List.foldl_append ..

theorem output_afterRequests (s : Session) (requests : List Request) :
    (s.afterRequests requests).output = s.output := by
  obtain ⟨state, same⟩ := s.exists_state_of_afterRequests requests
  rw [same]

/-- Actions are requests. -/
theorem afterRequests_acts (s : Session) (actions : List Action) :
    s.afterRequests (actions.map .act) =
      { s with state := actions.foldl (State.after s.context) s.state } := by
  induction actions generalizing s with
  | nil => rfl
  | cons a rest ih =>
      have first : s.afterRequest (.act a) = { s with state := s.state.after s.context a } := by
        simp only [afterRequest, Request.make, perform, a.perform_eq]
      have next : s.afterRequests ((a :: rest).map .act) =
          (s.afterRequest (.act a)).afterRequests (rest.map .act) := rfl
      rw [next, first, ih, List.foldl_cons]

/-- A pass is made of requests. It never fails. -/
theorem perform_pass (s : Session) (pass : Pass) :
    ∃ requests, perform pass.run s = .ok () (s.afterRequests requests) := by
  obtain ⟨actions, done⟩ := pass.run_eq_foldl s.context s.state
  refine ⟨actions.map .act, ?_⟩
  rw [perform_eq done, afterRequests_acts]

/-- Seeding is made of requests. It never fails. -/
theorem seed_requests (s : Session) :
    ∃ requests, s.afterCall .seed = { s with seeded := true }.afterRequests requests ∧
      seed s = .ok () (s.afterCall .seed) := by
  have done : seed s = .ok () (s.afterCall .seed) := by
    simp only [afterCall, Call.make, seed_eq]
  cases before : s.seeded with
  | true =>
      refine ⟨[], ?_, done⟩
      simp only [afterCall, Call.make, seed_eq, before, if_true]
      exact congrArg (fun seeded => { s with seeded }) before
  | false =>
      refine ⟨(seedActions s.context s.output).map Request.act ++ [.reset], ?_, done⟩
      rw [afterRequests_append, afterRequests_acts]
      simp only [afterCall, Call.make, seed_eq, before]
      rfl

/-! ## Points of a merge -/

/-- Where the run of a merge begins. The steps are taken out of the session for the time of the
run. -/
def runStart (s : Session) : Position := ⟨{ s.afterCall .seed with steps := [] }, 0⟩

/-- A point of a merge before the names are carried over, between any two requests. -/
inductive Midway (s : Session) : Session → Prop
  | seeding (requests : List Request) : Midway s ({ s with seeded := true }.afterRequests requests)
  | running {moves : List Move} {p : Position} (takes : Takes s.steps s.runStart moves p)
      (requests : List Request) : Midway s (p.session.afterRequests requests)

end Session

variable {steps : List Step} {p q : Position} {moves : List Move}

/-- A move changes the state and the number of cycles, and nothing else. -/
theorem Position.Moves.exists_session {m : Move} (move : Position.Moves steps p m q) :
    ∃ state cycle, q.session = { p.session with state, cycle } := by
  cases move with
  | operated here done =>
      obtain ⟨state, same⟩ := Session.exists_state_of_perform (.inl ⟨(), done⟩)
      exact ⟨state, p.session.cycle, same⟩
  | failed here failed =>
      obtain ⟨state, same⟩ := Session.exists_state_of_perform (.inr ⟨_, failed⟩)
      exact ⟨state, p.session.cycle, same⟩
  | jumped here | passed here => exact ⟨_, _, rfl⟩

namespace Takes

/-- A run changes the state and the number of cycles, and nothing else. -/
theorem exists_session (takes : Takes steps p moves q) :
    ∃ state cycle, q.session = { p.session with state, cycle } := by
  induction takes with
  | done p => exact ⟨p.session.state, p.session.cycle, rfl⟩
  | move first rest ih =>
      obtain ⟨state, cycle, same⟩ := first.exists_session
      obtain ⟨state', cycle', same'⟩ := ih
      exact ⟨state', cycle', by rw [same', same]⟩

/-- A run that begins behind the last step has ended. -/
theorem done_of_length_le (takes : Takes steps p moves q) (beyond : steps.length ≤ p.next) :
    moves = [] ∧ q = p := by
  cases takes with
  | done => exact ⟨rfl, rfl⟩
  | move first rest => exact absurd first (Position.Moves.not_of_length_le beyond _ _)

/-- A run ends where an operation fails. -/
theorem length_le_of_failed {e : MergeError} (takes : Takes steps p moves q)
    (failed : .failed e ∈ moves) : steps.length ≤ q.next := by
  induction takes with
  | done p => cases failed
  | @move a b z m moves first rest ih =>
      obtain rfl | later := List.mem_cons.mp failed
      · cases first with
        | failed here stopped =>
            obtain ⟨-, rfl⟩ := done_of_length_le rest (Nat.le_refl _)
            exact Nat.le_refl _
      · exact ih later

end Takes

namespace Session

/-- **A merge is a run** to a place behind the last step. If an operation failed, the merge fails
with the same error where the run stood, with its pipeline; otherwise it carries the names over. -/
theorem exists_path_merge (s : Session) :
    ∃ moves p, Takes s.steps s.runStart moves p ∧ s.steps.length ≤ p.next ∧
      (∀ e, .failed e ∈ moves → s.merge = .error e { p.session with steps := s.steps }) ∧
      ((∀ e, .failed e ∉ moves) → ∃ log, s.merge = .ok log { p.session with
        steps := s.steps
        output := project p.session.context p.session.state.ledger p.session.output }) := by
  have kept := s.steps_afterCall .seed
  obtain ⟨moves, last, takes, beyond, -, failed⟩ := exists_path_runFrom s.runStart.session s.steps 0
    (s.afterCall .seed).cycle (s.afterCall .seed).state []
  refine ⟨moves, _, takes, beyond, ?_, ?_⟩
  · intro e member
    have merged := s.merge_eq_error (e := e)
    simp only [runSteps, kept] at merged
    exact merged ((failed e).mp member)
  · intro unfailing
    have merged := s.merge_eq
    simp only [runSteps, kept] at merged
    refine ⟨_, merged (Option.eq_none_iff_forall_ne_some.mpr ?_)⟩
    intro e failure
    exact unfailing e ((failed e).mpr failure)

/-- The errors of a merge are those of its operations. A merge that fails has its pipeline back and
is otherwise left where it stood. -/
theorem merge_error_iff (s : Session) (e : MergeError) (s' : Session) :
    s.merge = .error e s' ↔ ∃ moves p, Takes s.steps s.runStart moves p ∧ .failed e ∈ moves ∧
      s' = { p.session with steps := s.steps } := by
  obtain ⟨moves, p, takes, beyond, failing, succeeding⟩ := s.exists_path_merge
  constructor
  · intro merged
    by_cases fails : ∃ e', .failed e' ∈ moves
    · obtain ⟨e', member⟩ := fails
      cases (failing e' member).symm.trans merged
      exact ⟨moves, p, takes, member, rfl⟩
    · obtain ⟨log, merged'⟩ := succeeding (not_exists.mp fails)
      cases merged'.symm.trans merged
  · rintro ⟨moves', p', takes', member, rfl⟩
    obtain ⟨rest, rfl, onward⟩ := takes.continues beyond takes'
    obtain ⟨-, rfl⟩ := onward.done_of_length_le (takes'.length_le_of_failed member)
    exact failing e (List.mem_append_left rest member)

/-! ## Sessions in which no names were carried over -/

/-- A session that has not merged yet, except for merges that failed. -/
inductive Unfinished (known : MappingSet) : Session → Prop
  | start (old : Program) (names : MappingSet) (new : Program) (settings : MergeSettings) :
      Unfinished known (start old names new known settings)
  | withDefaultSteps {s : Session} (before : Unfinished known s) :
      Unfinished known s.withDefaultSteps
  | addSteps {s : Session} (before : Unfinished known s) (steps : List Step) :
      Unfinished known (s.addSteps steps)
  | afterRequest {s : Session} (before : Unfinished known s) (request : Request) :
      Unfinished known (s.afterRequest request)
  | afterCall {s : Session} (before : Unfinished known s) (call : Call) :
      Unfinished known (s.afterCall call)
  | failed {s s' : Session} {e : MergeError} (before : Unfinished known s)
      (failed : s.merge = .error e s') : Unfinished known s'

variable {s t : Session}

/-- **At every point of a merge** before the names are carried over, the names are what they
were. -/
theorem Midway.output_eq (midway : s.Midway t) : t.output = s.output := by
  cases midway with
  | seeding requests => exact output_afterRequests _ requests
  | @running moves p takes requests =>
      obtain ⟨state, cycle, same⟩ := takes.exists_session
      rw [output_afterRequests, same]
      exact s.output_afterCall .seed

/-- A merge that fails leaves the names and the pipeline as it found them. -/
theorem unchanged_of_merge_error {e : MergeError} (failed : s.merge = .error e t) :
    t.output = s.output ∧ t.steps = s.steps := by
  obtain ⟨moves, p, takes, -, rfl⟩ := (s.merge_error_iff e t).mp failed
  exact ⟨(Midway.running takes []).output_eq, rfl⟩

theorem Unfinished.output_eq {known : MappingSet} (unfinished : Unfinished known s) :
    s.output = known := by
  induction unfinished with
  | start => rfl
  | withDefaultSteps before ih => exact ih
  | addSteps before steps ih => exact ih
  | @afterRequest s before request ih =>
      obtain ⟨state, same⟩ := s.exists_state_of_afterRequest request
      rw [same]
      exact ih
  | afterCall before call ih => exact (output_afterCall _ call).trans ih
  | failed before failed ih => exact (unchanged_of_merge_error failed).1.trans ih

/-- **Names are withheld until a merge succeeds.** In a session that started with some names of the
new build and in which no merge has succeeded so far, whatever its pipeline is and whatever it was
asked for, these are the names, and they stay so at every point of the next merge before names are
carried over: between the requests of seeding, of passes and of other operations, and after every
move of the run, whatever jumps were taken. Passes and seeding never fail. If an operation fails,
so does the merge, with the same error; the names and the pipeline are then what they were. If
none does, the merge succeeds, and only behind the last step it adds to the names. -/
theorem Unfinished.withholds_output {known : MappingSet} (unfinished : Unfinished known s) :
    s.output = known ∧
    (∀ t, s.Midway t → t.output = known) ∧
    (∃ requests, s.afterCall .seed = { s with seeded := true }.afterRequests requests ∧
      seed s = .ok () (s.afterCall .seed)) ∧
    (∀ (pass : Pass) (t : Session), ∃ requests,
      perform pass.run t = .ok () (t.afterRequests requests)) ∧
    (∀ e t, s.merge = .error e t ↔ ∃ moves p, Takes s.steps s.runStart moves p ∧
      .failed e ∈ moves ∧ t = { p.session with steps := s.steps }) ∧
    (∀ e t, s.merge = .error e t → t.output = known ∧ t.steps = s.steps) ∧
    ∀ log t, s.merge = .ok log t → ∃ moves p, Takes s.steps s.runStart moves p ∧
      s.steps.length ≤ p.next ∧ (∀ e, .failed e ∉ moves) ∧ p.session.output = known ∧
      t = { p.session with
        steps := s.steps
        output := project p.session.context p.session.state.ledger known } := by
  have same := unfinished.output_eq
  refine ⟨same, ?_, s.seed_requests, fun pass t => t.perform_pass pass, s.merge_error_iff, ?_, ?_⟩
  · intro t midway
    exact midway.output_eq.trans same
  · intro e t failed
    obtain ⟨output, steps⟩ := unchanged_of_merge_error failed
    exact ⟨output.trans same, steps⟩
  · intro log t merged
    obtain ⟨moves, p, takes, beyond, failing, succeeding⟩ := s.exists_path_merge
    have unfailing : ∀ e, .failed e ∉ moves := by
      intro e member
      cases (failing e member).symm.trans merged
    have output : p.session.output = known := (Midway.running takes []).output_eq.trans same
    obtain ⟨log', merged'⟩ := succeeding unfailing
    rw [output] at merged'
    cases merged'.symm.trans merged
    exact ⟨moves, p, takes, beyond, unfailing, output, rfl⟩

/-- An operation confirms a field and then fails. The name of the field is not carried over. -/
theorem withholds_output_of_refusal :
    let names := ((∅ : MappingSet).addType "a" "Known").addField "a" "b" "kept"
    let known := (∅ : MappingSet).addType "x" "Known"
    let refusal : MergeError := .field (.unsetTarget (.real ⟨0⟩))
    let actions : List Action := [.vote (.field ⟨0⟩ ⟨0⟩), .confirmField (.real ⟨0⟩) ⟨0⟩]
    let refuse (c : Context) : Work Unit := do
      Action.performAll c actions
      throw refusal
    let s := (start (.single "a" "b") names (.single "x" "y") known .default).addSteps
      [.operation refuse]
    Unfinished known s ∧ ∃ t, s.merge = .error refusal t ∧ t.output = known ∧
      t.steps = [.operation refuse] ∧ t.state.ledger.fields.target? (.real ⟨0⟩) = some ⟨0⟩ ∧
      (project t.context t.state.ledger t.output).mapField? "x" "y" = some "kept" := by
  intro names known refusal actions refuse s
  have unfinished : Unfinished known s := .addSteps (.start _ names _ .default) _
  obtain ⟨-, -, -, -, errors, kept, -⟩ := unfinished.withholds_output
  have refused (r : Session) : perform refuse r =
      .error refusal { r with state := actions.foldl (State.after r.context) r.state } := by
    have first := Action.performAll_eq r.context actions r.state
    simp only [perform, refuse, bind_of_ok first]
    rfl
  have run := Path.move (Position.Moves.failed (rfl : s.steps[s.runStart.next]? = _)
    (refused s.runStart.session)) (.done _)
  have failed := (errors refusal _).mpr ⟨_, _, run, List.mem_singleton.mpr rfl, rfl⟩
  obtain ⟨output, steps⟩ := kept refusal _ failed
  refine ⟨unfinished, _, failed, output, steps, ?_, ?_⟩
  · decide +kernel
  · decide +kernel

end Session

end Namesake
