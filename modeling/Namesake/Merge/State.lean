import Namesake.Merge.Ballot

/-! # Confirming matches

What changes during a merge is the ledger and a count of the matches confirmed since the last look
at it. When a type is confirmed, the pending votes of its members are cut down to members of its
counterpart, and these entries remember which type that is.

An `Action` is a change that is decided beforehand, `Work` is anything done to the state; work that
fails leaves behind what it did so far.
-/

namespace Namesake

/-- What changes during a merge. -/
structure State where
  ledger : Ledger
  /-- The number of matches confirmed since the count was last reset. -/
  changes : Nat
deriving DecidableEq

namespace State

def initial : State := ⟨∅, 0⟩

instance : Inhabited State := ⟨initial⟩

/-- The count of changes, and the state with the count reset. -/
def takeChanges (s : State) : Nat × State := (s.changes, { s with changes := 0 })

end State

/-- Work on the state of a merge. -/
abbrev Work := EStateM MergeError State

namespace Work

/-- Cast a ballot, and tell whether it is accepted. -/
def vote (c : Context) (b : Ballot) : Work Bool := fun s =>
  .ok (b.accepted c s.ledger) { s with ledger := b.cast c s.ledger }

/-- The votes of a member for what belongs to its new owner. -/
def restrictEntry {ι : Type} [KeyOrder ι] (ownerOf : ι → TypeId) (owner : TypeId)
    (e : MatchEntry ι) : MatchEntry ι :=
  { e.retainVotes fun candidate => ownerOf candidate = owner with ownerHint := some owner }

/-- Cut the votes of the members of a type down to members of its counterpart. -/
def restrictMembers (c : Context) (l : Ledger) (old new : TypeId) : Ledger :=
  let entry := c.old.program.type old
  { l with
    methods := entry.methods.foldl (fun p m => p.modifyPending (.real m)
      (restrictEntry (fun candidate => (c.new.program.method candidate).owner) new)) l.methods
    fields := entry.fields.foldl (fun p f => p.modifyPending (.real f)
      (restrictEntry (fun candidate => (c.new.program.field candidate).owner) new)) l.fields }

/-- Confirm a type if neither side is taken, and tell whether that was so. -/
def confirmType (c : Context) (old : Handle TypeId) (new : TypeId) : Work Bool := fun s =>
  match s.ledger.types.tryMatch old new with
  | .error e => .error (.type e) s
  | .ok (false, _) => .ok false s
  | .ok (true, types) =>
    let l := { s.ledger with types }
    .ok true ⟨match old with
      | .real o => restrictMembers c l o new
      | .synthetic _ => l, s.changes + 1⟩

/-- Confirm a method if neither side is taken, and tell whether that was so. -/
def confirmMethod (old : Handle MethodId) (new : MethodId) : Work Bool := fun s =>
  match s.ledger.methods.tryMatch old new with
  | .error e => .error (.method e) s
  | .ok (false, _) => .ok false s
  | .ok (true, methods) => .ok true ⟨{ s.ledger with methods }, s.changes + 1⟩

/-- Confirm a field if neither side is taken, and tell whether that was so. -/
def confirmField (old : Handle FieldId) (new : FieldId) : Work Bool := fun s =>
  match s.ledger.fields.tryMatch old new with
  | .error e => .error (.field e) s
  | .ok (false, _) => .ok false s
  | .ok (true, fields) => .ok true ⟨{ s.ledger with fields }, s.changes + 1⟩

end Work

/-- A change of the state that is decided beforehand. -/
inductive Action where
  | vote (ballot : Ballot)
  | confirmType (old : Handle TypeId) (new : TypeId)
  | confirmMethod (old : Handle MethodId) (new : MethodId)
  | confirmField (old : Handle FieldId) (new : FieldId)
  /-- Note that what the confirmed pair of a type contains has been compared. -/
  | mergedType (old : TypeId)
  | mergedMethod (old : MethodId)
  | mergedField (old : FieldId)
deriving DecidableEq, Repr

namespace Action

/-- Carry out an action. -/
def perform (c : Context) : Action → Work Unit
  | vote b => do discard (Work.vote c b)
  | confirmType old new => do discard (Work.confirmType c old new)
  | confirmMethod old new => do discard (Work.confirmMethod old new)
  | confirmField old new => do discard (Work.confirmField old new)
  | mergedType old => modify fun s =>
    { s with ledger := { s.ledger with
      types := (s.ledger.types.markMerged? (.real old)).getD s.ledger.types } }
  | mergedMethod old => modify fun s =>
    { s with ledger := { s.ledger with
      methods := (s.ledger.methods.markMerged? (.real old)).getD s.ledger.methods } }
  | mergedField old => modify fun s =>
    { s with ledger := { s.ledger with
      fields := (s.ledger.fields.markMerged? (.real old)).getD s.ledger.fields } }

/-- Carry out actions one after the other. -/
def performAll (c : Context) (actions : List Action) : Work Unit := actions.forM (perform c)

end Action

end Namesake
