import Namesake.Ledger.Entry
import Namesake.Ledger.MergeError

/-! # The ledger

For each kind of thing a partition holds the pending entries, the confirmed ones, and who has
claimed which new thing. Confirming is for good: it moves the entry from the pending to the
confirmed side, claims its target, and takes back every other vote for that target.
-/

namespace Namesake

/-- The matches of one kind. -/
structure Partition (ι : Type) [KeyOrder ι] where
  pending : SortedMap (Handle ι) (MatchEntry ι)
  confirmed : SortedMap (Handle ι) (MatchEntry ι)
  /-- The old thing each claimed new one is confirmed for. -/
  inverse : SortedMap ι (Handle ι)
deriving DecidableEq

namespace Partition

variable {ι : Type} [KeyOrder ι]

def empty : Partition ι := ⟨∅, ∅, ∅⟩

instance : EmptyCollection (Partition ι) := ⟨empty⟩
instance : Inhabited (Partition ι) := ⟨empty⟩

/-! ## Views -/

/-- The entry of an old thing, if there is one. -/
def get? (p : Partition ι) (old : Handle ι) : Option (MatchEntry ι) :=
  (p.confirmed.get? old).or (p.pending.get? old)

/-- The new thing an old one is confirmed onto. -/
def target? (p : Partition ι) (old : Handle ι) : Option ι := p.confirmed.get? old >>= (·.target)

def isConfirmed (p : Partition ι) (old : Handle ι) : Bool := p.confirmed.contains old

/-- Whether a new thing is confirmed for some old one. -/
def isClaimed (p : Partition ι) (new : ι) : Bool := p.inverse.contains new

/-- The old thing a new one is confirmed for. -/
def holder? (p : Partition ι) (new : ι) : Option (Handle ι) := p.inverse.get? new

/-- The confirmed pairs of things of the two programs, in the order of the old ones. -/
def pairs (p : Partition ι) : List (ι × ι) :=
  p.confirmed.values.filterMap fun e => do return (← e.old.real?, ← e.target)

/-- The confirmed pairs whose contents have not been compared yet. -/
def unmergedPairs (p : Partition ι) : List (ι × ι) :=
  p.confirmed.values.filterMap fun e => do
    guard !e.merged
    return (← e.old.real?, ← e.target)

/-- The old things with pending entries, by falling margin; those of equal margin keep their
order. -/
def rankedPending (p : Partition ι) : List (Handle ι) :=
  (p.pending.toList.mergeSort fun a b => b.2.margin ≤ a.2.margin).map Prod.fst

/-! ## Evidence -/

/-- Make sure that an old thing has an entry. -/
def touch (p : Partition ι) (old : Handle ι) : Partition ι :=
  if p.confirmed.contains old || p.pending.contains old then p
  else { p with pending := p.pending.insert old (.blank old) }

/-- Whether a vote counts: a confirmed old thing agrees with its target only, a pending one with any
new thing nobody has claimed, as long as its target is not fixed. -/
def accepts [DecidableEq ι] (p : Partition ι) (old : Handle ι) (new : ι) : Bool :=
  match p.confirmed.get? old with
  | some e => e.target = some new
  | none =>
    !p.isClaimed new && match p.pending.get? old with
      | some e => e.target.isNone
      | none => true

/-- Cast a vote. An old thing that is not confirmed has an entry from then on, even if the vote does
not count. -/
def vote [DecidableEq ι] (p : Partition ι) (old : Handle ι) (new : ι) : Partition ι :=
  if p.confirmed.contains old then p
  else
    let p := p.touch old
    if p.isClaimed new then p
    else { p with pending := p.pending.modify old fun e => (e.addVote? new).getD e }

/-- Take back all votes of a pending old thing for a new one. -/
def removeVote [DecidableEq ι] (p : Partition ι) (old : Handle ι) (new : ι) : Partition ι :=
  { p with pending := p.pending.modify old (·.removeVote new) }

/-- Fix the target of an old thing that is not confirmed. -/
def setTarget (p : Partition ι) (old : Handle ι) (new : ι) : Partition ι :=
  if p.confirmed.contains old then p
  else
    let p := p.touch old
    { p with pending := p.pending.modify old fun e => { e with target := some new } }

/-- Change a pending entry. -/
def modifyPending (p : Partition ι) (old : Handle ι) (f : MatchEntry ι → MatchEntry ι) :
    Partition ι :=
  { p with pending := p.pending.modify old f }

/-! ## Confirming -/

/-- Move an entry with a target to the confirmed side. -/
def settle [DecidableEq ι] (p : Partition ι) (old : Handle ι) (entry : MatchEntry ι) (target : ι) :
    Partition ι where
  pending := (p.pending.erase old).mapValues fun _ e => e.removeVote target
  confirmed := p.confirmed.insert old entry.withoutVotes
  inverse := p.inverse.insert target old

/-- Confirm an old thing onto its target. -/
def confirm [DecidableEq ι] (p : Partition ι) (old : Handle ι) :
    Except (ConfirmError ι) (ι × Partition ι) :=
  match p.target? old with
  | some target => .ok (target, p)
  | none =>
    match p.pending.get? old with
    | none => .error (.unsetTarget old)
    | some entry =>
      match entry.target with
      | none => .error (.unsetTarget old)
      | some target =>
        match p.holder? target with
        | some holder => .error (.targetClaimed old target holder)
        | none => .ok (target, p.settle old entry target)

/-- Confirm an old thing onto a new one if neither is taken, and tell whether that was so. -/
def tryMatch [DecidableEq ι] (p : Partition ι) (old : Handle ι) (new : ι) :
    Except (ConfirmError ι) (Bool × Partition ι) :=
  if p.isConfirmed old || p.isClaimed new then .ok (false, p)
  else
    match (p.setTarget old new).confirm old with
    | .ok (_, p) => .ok (true, p)
    | .error e => .error e

/-- Note that what a confirmed pair contains is being compared; nothing for a pair that is not
confirmed or was compared before. -/
def markMerged? (p : Partition ι) (old : Handle ι) : Option (Partition ι) :=
  match p.confirmed.get? old with
  | none => none
  | some e =>
    if e.merged then none
    else some { p with confirmed := p.confirmed.insert old { e with merged := true } }

end Partition

/-- All matches of a merge. -/
structure Ledger where
  types : Partition TypeId
  methods : Partition MethodId
  fields : Partition FieldId
deriving DecidableEq

namespace Ledger

def empty : Ledger := ⟨∅, ∅, ∅⟩

instance : EmptyCollection Ledger := ⟨empty⟩
instance : Inhabited Ledger := ⟨empty⟩

end Ledger

end Namesake
