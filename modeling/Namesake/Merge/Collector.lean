import Namesake.Merge.State

/-! # Collecting votes

Of each kind the most decisive pending matches are confirmed, as many as the settings allow. A match
is looked at again when its turn comes, as the ones confirmed before may have taken its candidate. A
member takes its owner along: if the old owner is open, it is confirmed with the member's, and if
the new owner is somebody else's, the member has to wait.
-/

namespace Namesake

/-- Confirm the best of the pending types. -/
def collectTypes (c : Context) : Work Unit := do
  let ranked := (← get).ledger.types.rankedPending
  let settings := c.settings.collector
  (ranked.take (settings.quota settings.minTypes ranked.length)).forM fun old => do
    match (← get).ledger.types.get? old >>= (·.highest) with
    | none => pure ()
    | some best => discard (Work.confirmType c old best)

/-- Make sure that an old owner has a counterpart, and tell whether a member with a candidate of the
given new owner may be confirmed. -/
def settleOwner (c : Context) (old new : TypeId) : Work Bool := do
  let types := (← get).ledger.types
  if (types.target? (.real old)).isSome then return true
  else if types.isClaimed new then return false
  else Work.confirmType c (.real old) new

/-- Confirm the best of the pending methods. -/
def collectMethods (c : Context) : Work Unit := do
  let ranked := (← get).ledger.methods.rankedPending
  let settings := c.settings.collector
  (ranked.take (settings.quota settings.minMethods ranked.length)).forM fun old => do
    match (← get).ledger.methods.get? old >>= (·.highest) with
    | none => pure ()
    | some best =>
      let settled ← match old with
        | .real m => settleOwner c (c.old.program.method m).owner (c.new.program.method best).owner
        | .synthetic _ => pure true
      if settled then discard (Work.confirmMethod old best)

/-- Confirm the best of the pending fields. -/
def collectFields (c : Context) : Work Unit := do
  let ranked := (← get).ledger.fields.rankedPending
  let settings := c.settings.collector
  (ranked.take (settings.quota settings.minFields ranked.length)).forM fun old => do
    match (← get).ledger.fields.get? old >>= (·.highest) with
    | none => pure ()
    | some best =>
      let settled ← match old with
        | .real f => settleOwner c (c.old.program.field f).owner (c.new.program.field best).owner
        | .synthetic _ => pure true
      if settled then discard (Work.confirmField old best)

/-- Confirm the best of what is pending, kind by kind. -/
def collectVotes (c : Context) : Work Unit := do
  collectTypes c
  collectMethods c
  collectFields c

end Namesake
