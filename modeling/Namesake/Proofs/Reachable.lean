import Namesake.Proofs.Confirming
import Namesake.Proofs.PartitionInvariants
import Namesake.Proofs.SessionCalls

/-! # Reachable states

A state is reachable if it comes about by votes, confirmations and marks, carried out in any order
and with any handles and ids, and by looks at the count of changes (`State.Reachable`). Nothing else
happens during a merge: seeding and most passes carry out actions, and the collector only confirms.
So the state of a session stays reachable whatever it is asked to do
(`Session.reachable_afterCalls`). No program has to be valid for that, and no member to exist.
-/

namespace Namesake

/-- A state a merge can come to. -/
inductive State.Reachable (c : Context) : State → Prop
  | initial : Reachable c .initial
  | performed {s s' : State} (before : Reachable c s) (a : Action)
      (done : a.perform c s = .ok () s') : Reachable c s'
  | looked {s : State} (before : Reachable c s) : Reachable c s.takeChanges.2

namespace State.Reachable

variable {c : Context} {s : State}

/-- Actions lead from reachable states to reachable ones. -/
theorem foldl_after (before : s.Reachable c) (actions : List Action) :
    (actions.foldl (State.after c) s).Reachable c := by
  induction actions generalizing s with
  | nil => exact before
  | cons a rest ih => exact ih (before.performed a (a.perform_eq c s))

/-- What all actions keep holds in every reachable state. -/
theorem each {holds : ∀ {ι : Type} [KeyOrder ι], Partition ι → Prop}
    (kept : Partition.Invariant holds) (reachable : s.Reachable c) : s.ledger.Each holds := by
  induction reachable with
  | initial => exact kept.each_empty
  | @performed s s' before a done ih =>
      rw [a.perform_eq] at done
      cases done
      exact kept.after ih c a
  | looked before ih => exact ih

end State.Reachable

/-! ## Passes and sessions -/

variable {c : Context}

/-- A pass with a plan carries it out. -/
theorem Pass.run_of_plan? {pass : Pass} {s : State} {actions : List Action}
    (plan : pass.plan? c s.ledger = some actions) :
    pass.run c s = .ok () (actions.foldl (State.after c) s) := by
  rw [Pass.run, get_bind, plan]
  exact Action.performAll_eq c actions s

/-- Whatever the ledger is like, a pass succeeds, and all it does is carry out actions. -/
theorem Pass.run_eq_foldl (pass : Pass) (c : Context) (s : State) :
    ∃ actions : List Action, pass.run c s = .ok () (actions.foldl (State.after c) s) := by
  cases plan : pass.plan? c s.ledger with
  | some actions => exact ⟨actions, Pass.run_of_plan? plan⟩
  | none =>
      obtain ⟨s', done, actions, -, rfl⟩ := collectVotes_onlyConfirms (c := c) s
      rw [Pass.run, get_bind, plan]
      exact ⟨actions, done⟩

/-- A pass succeeds and keeps states reachable. -/
theorem State.Reachable.run {s : State} (before : s.Reachable c) (pass : Pass) :
    ∃ s', pass.run c s = .ok () s' ∧ s'.Reachable c := by
  obtain ⟨actions, done⟩ := pass.run_eq_foldl c s
  exact ⟨_, done, before.foldl_after actions⟩

namespace Session

theorem reachable_start (old : Program) (names : MappingSet) (new : Program) (known : MappingSet)
    (settings : MergeSettings) :
    let s := start old names new known settings
    s.state.Reachable s.context :=
  .initial

/-- A call leaves what a session is about alone and keeps its state reachable. -/
theorem reachable_afterCall {s : Session} (before : s.state.Reachable s.context) (call : Call) :
    (s.afterCall call).context = s.context ∧ (s.afterCall call).state.Reachable s.context := by
  have performed (a : Action) (made : call.make = perform fun c => a.perform c) :
      (s.afterCall call).context = s.context ∧
        (s.afterCall call).state.Reachable s.context := by
    have done := a.perform_eq s.context s.state
    rw [afterCall, made, perform_eq done]
    exact ⟨rfl, before.performed a done⟩
  cases call with
  | seed =>
      have seeded : s.seedState.Reachable s.context := before.foldl_after _
      simp only [afterCall, Call.make, seed_eq]
      split_ifs
      · exact ⟨rfl, before⟩
      · exact ⟨rfl, seeded.looked⟩
  | vote b => exact performed (.vote b) rfl
  | confirmType old new => exact performed (.confirmType old new) rfl
  | pass p =>
      obtain ⟨state, done, reachable⟩ := before.run p
      rw [afterCall, Call.make, perform_eq done]
      exact ⟨rfl, reachable⟩

/-- **Sessions stay within the reachable states**, whatever they are asked to do. -/
theorem reachable_afterCalls {s : Session} (before : s.state.Reachable s.context)
    (calls : List Call) :
    (s.afterCalls calls).context = s.context ∧
      (s.afterCalls calls).state.Reachable s.context := by
  induction calls generalizing s with
  | nil => exact ⟨rfl, before⟩
  | cons call rest ih =>
      obtain ⟨context, reachable⟩ := reachable_afterCall before call
      rw [← context] at reachable ⊢
      exact ih reachable

end Session

end Namesake
