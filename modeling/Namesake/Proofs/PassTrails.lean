import Namesake.Merge.Session
import Namesake.Proofs.Collecting
import Namesake.Proofs.PassWarrants

/-! # Passes and seeding as trails

In coherent programs a pass never fails, and what it does from a lawful ledger is a trail of
warranted actions: the ones it decided on beforehand, or confirmations where it is the collector
(`Pass.run_trail`). Seeding is a trail of confirmed types (`Session.seedState_trail`).
-/

namespace Namesake

variable {c : Context} {pool : Pool c.old.program c.new.program}

/-- Carrying out actions that are all warranted at the start is a trail. -/
theorem Action.performAll_trail (coherent : c.Coherent) {s : State}
    (lawful : s.ledger.Lawful c pool)
    {actions : List Action} (warranted : ∀ a ∈ actions, a.Warranted c pool s.ledger) :
    ∃ s', performAll c actions s = .ok () s' ∧ Trail c pool s actions s' :=
  ⟨_, performAll_eq c actions s, .of_warranted coherent.old lawful warranted⟩

/-- The actions a pass may take about a ledger: those it decides on beforehand, or some
confirmations if it is the collector. -/
def Pass.Takes (c : Context) (l : Ledger) (pass : Pass) (actions : List Action) : Prop :=
  match pass.plan? c l with
  | some planned => actions = planned
  | none => ∀ a ∈ actions, a.isConfirmation = true

/-- **What a pass does.** It succeeds and leads by a trail of warranted actions to another state. -/
theorem Pass.run_trail (coherent : c.Coherent) {s : State} (lawful : s.ledger.Lawful c pool)
    (pass : Pass) : ∃ s' actions, pass.run c s = .ok () s' ∧ Trail c pool s actions s' ∧
      pass.Takes c s.ledger actions := by
  have look : pass.run c s = (match pass.plan? c s.ledger with
      | some actions => Action.performAll c actions
      | none => collectVotes c) s := rfl
  rw [look]
  unfold Takes
  cases planned : pass.plan? c s.ledger with
  | some actions =>
      obtain ⟨s', done, trail⟩ := Action.performAll_trail coherent lawful
        (Pass.warranted_of_plan? pool coherent lawful planned)
      exact ⟨s', actions, done, trail, rfl⟩
  | none =>
      obtain ⟨s', done, actions, trail, confirmations⟩ := collectVotes_confirms coherent lawful
      exact ⟨s', actions, done, trail, confirmations⟩

namespace Session

/-- Seeding confirms types that are part of the programs. -/
theorem warranted_seedActions (coherent : c.Coherent) {known : MappingSet} {l : Ledger} :
    ∀ a ∈ seedActions c known, a.Warranted c pool l := by
  intro a member
  obtain ⟨⟨name, plain⟩, -, seeded⟩ := List.mem_filterMap.mp member
  simp only [Option.bind_eq_bind, Option.bind_eq_some_iff, Option.pure_def,
    Option.some.injEq] at seeded
  obtain ⟨new, named, rfl⟩ := seeded
  refine ⟨?_, pool.has_type (coherent.new.named named).1⟩
  intro o key
  split at key
  · next found =>
    obtain ⟨x, -, named'⟩ := Option.bind_eq_some_iff.mp found
    obtain rfl := Handle.real.inj key
    exact pool.has_oldType (coherent.old.named named').1
  · cases key

/-- Work that succeeds leaves its state in the session. -/
theorem perform_eq {α : Type} {work : Context → Work α} {s : Session} {a : α} {state : State}
    (done : work s.context s.state = .ok a state) : perform work s = .ok a { s with state } := by
  unfold perform
  rw [done]

/-- The state seeding leads to, before the count of changes is reset. -/
def seedState (s : Session) : State :=
  (seedActions s.context s.output).foldl (State.after s.context) s.state

/-- Seeding succeeds. It does nothing if it was done before; afterwards nothing counts as a
change. -/
theorem seed_eq (s : Session) :
    seed s = .ok () (if s.seeded then s else
      { s with state := { s.seedState with changes := 0 }, seeded := true }) := by
  have look : seed s = (if s.seeded then pure () else do
      set { s with seeded := true }
      perform fun c => Action.performAll c (seedActions c s.output)
      modify fun s => { s with state := s.state.takeChanges.2 } :
        EStateM MergeError Session Unit) s := rfl
  rw [look]
  cases s.seeded with
  | true => rfl
  | false =>
      have flagged : (set { s with seeded := true } : EStateM MergeError Session Unit) s =
          .ok () { s with seeded := true } := rfl
      have done := Action.performAll_eq s.context (seedActions s.context s.output) s.state
      have performed : perform (fun c => Action.performAll c (seedActions c s.output))
          { s with seeded := true } = .ok () { s with seeded := true, state := s.seedState } :=
        perform_eq done
      rw [if_neg Bool.false_ne_true, bind_of_ok flagged, bind_of_ok performed]
      rfl

theorem seedState_trail {s : Session} {pool : Pool s.context.old.program s.context.new.program}
    (coherent : s.context.Coherent) (lawful : s.state.ledger.Lawful s.context pool) :
    Trail s.context pool s.state (seedActions s.context s.output) s.seedState :=
  .of_warranted coherent.old lawful (warranted_seedActions coherent)

end Session

end Namesake
