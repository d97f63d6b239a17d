import Namesake.Merge.Pipeline
import Namesake.Merge.Projection

/-! # Merge sessions

A session starts from two programs, the plain names of the old one, some names the new one is known
to have, and the settings. `merge` confirms what these names tell, runs the pipeline, and only if
nothing failed carries the names over.
-/

namespace Namesake

/-- A merge under way. -/
structure Session where
  context : Context
  state : State
  /-- The plain names of the new build. -/
  output : MappingSet
  steps : List Step
  /-- The number of jumps taken. -/
  cycle : Nat
  /-- Whether the names the new build is known to have were looked at. -/
  seeded : Bool

namespace Session

/-- A session with an empty pipeline. -/
def start (old : Program) (names : MappingSet) (new : Program) (known : MappingSet)
    (settings : MergeSettings) : Session :=
  { context := .of old names new settings
    state := .initial
    output := known
    steps := []
    cycle := 0
    seeded := false }

/-- The session with the usual pipeline. -/
def withDefaultSteps (s : Session) : Session := { s with steps := defaultSteps }

/-- The session with further steps at the end of its pipeline. -/
def addSteps (s : Session) (steps : List Step) : Session := { s with steps := s.steps ++ steps }

/-- What the known names of the new build tell: a type of a known name is confirmed for the old type
that has it, or for a placeholder where there is none. -/
def seedActions (c : Context) (known : MappingSet) : List Action :=
  known.typeList.filterMap fun (name, plain) => do
    let new ← c.new.program.typeNamed? name
    let old := match c.names.inverseType? plain >>= c.old.program.typeNamed? with
      | some old => .real old
      | none => .synthetic ⟨none, plain, none⟩
    return .confirmType old new

/-- Carry out work in a session. -/
def perform {α : Type} (work : Context → Work α) : EStateM MergeError Session α := fun s =>
  match work s.context s.state with
  | .ok a state => .ok a { s with state }
  | .error e state => .error e { s with state }

/-- Confirm what the known names of the new build tell. This is done once in a session and does not
count as a change. -/
def seed : EStateM MergeError Session Unit := do
  let s ← get
  if s.seeded then return
  set { s with seeded := true }
  perform fun c => Action.performAll c (seedActions c s.output)
  modify fun s => { s with state := s.state.takeChanges.2 }

/-- Seed the session, run its pipeline and carry the names over. The log of the pipeline comes back,
latest first. -/
def merge : EStateM MergeError Session (List Execution) := do
  seed
  let s ← get
  let outcome := runSteps s.context s.steps s.cycle s.state
  set { s with cycle := outcome.cycle, state := outcome.state }
  match outcome.failure with
  | some e => throw e
  | none =>
    modify fun s => { s with output := project s.context s.state.ledger s.output }
    return outcome.log

end Session

end Namesake
