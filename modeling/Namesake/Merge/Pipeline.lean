import Namesake.Merge.Pass

/-! # Pipelines

A pipeline is a list of steps. A step is an operation on the state of the merge or a jump, which
goes on at another step if its predicate holds. Every jump that is taken starts a new cycle, and the
number of cycles is limited, so a run ends whatever the jumps and predicates are.
-/

namespace Namesake

/-- What a jump depends on. Looking may change the state. -/
abbrev Predicate := State → Bool × State

namespace Predicate

/-- Holds if anything was confirmed since the last look, and resets the count. -/
def changesSinceReset : Predicate := fun s => (decide (0 < s.takeChanges.1), s.takeChanges.2)

def always : Predicate := fun s => (true, s)

def never : Predicate := fun s => (false, s)

end Predicate

/-- A step of a pipeline. -/
inductive Step where
  | operation (work : Context → Work Unit)
  /-- Go on at the step of the given number if the predicate holds. -/
  | jump (target : Nat) (predicate : Predicate)

namespace Step

/-- The step that runs a pass. -/
def pass (p : Pass) : Step := operation p.run

end Step

/-- The usual passes, repeated from the fourth on until a cycle confirms nothing. -/
def defaultSteps : List Step := Pass.all.map .pass ++ [.jump 3 Predicate.changesSinceReset]

/-- An operation that was carried out. -/
structure Execution where
  /-- The number of the step. -/
  step : Nat
  /-- The number of jumps taken before. -/
  cycle : Nat
  /-- The state the operation left behind. -/
  state : State

/-- What has become of a pipeline. -/
structure Outcome where
  cycle : Nat
  state : State
  /-- What made it stop before its end. -/
  failure : Option MergeError
  /-- The operations carried out, latest first. -/
  log : List Execution

/-- Run a pipeline from a step on, with a cycle count and the log so far. An operation that fails
ends the run. -/
def runFrom (c : Context) (steps : List Step) (next cycle : Nat) (s : State)
    (log : List Execution) : Outcome :=
  if _inside : next < steps.length then
    match steps[next] with
    | .operation work =>
      match work c s with
      | .ok () s' => runFrom c steps (next + 1) cycle s' (⟨next, cycle, s'⟩ :: log)
      | .error e s' => ⟨cycle, s', some e, ⟨next, cycle, s'⟩ :: log⟩
    | .jump target predicate =>
      let (holds, s') := predicate s
      if _taken : holds = true ∧ cycle < c.settings.maxCycles then
        runFrom c steps target (cycle + 1) s' log
      else runFrom c steps (next + 1) cycle s' log
  else ⟨cycle, s, none, log⟩
termination_by (c.settings.maxCycles - cycle, steps.length - next)
decreasing_by
  · exact Prod.Lex.right _ (by omega)
  · exact Prod.Lex.left _ _ (by omega)
  · exact Prod.Lex.right _ (by omega)

/-- Run a pipeline from its start. -/
def runSteps (c : Context) (steps : List Step) (cycle : Nat) (s : State) : Outcome :=
  runFrom c steps 0 cycle s []

end Namesake
