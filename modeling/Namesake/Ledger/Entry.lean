import Namesake.Program.Basic
import Namesake.Program.Handle

/-! # Match entries

What is known about the new counterpart of one old thing: the votes for each candidate, and the
target once it is fixed. The best candidate, its votes and those of the runner-up are kept at hand;
of candidates with equal votes the one that got there first stays the best, until votes are taken
back and the smallest of them comes first again.

Votes are counted without a bound. An engine that keeps the counts in 32 bits does the same as long
as none of them overflows; what it does then is left out.
-/

namespace Namesake

/-- The evidence about one old thing. -/
structure MatchEntry (ι : Type) [KeyOrder ι] where
  old : Handle ι
  target : Option ι
  /-- The number of votes for each candidate. -/
  votes : SortedMap ι Nat
  /-- A candidate with the most votes. -/
  highest : Option ι
  highestVotes : Nat
  secondVotes : Nat
  /-- The new type the counterpart has to belong to. -/
  ownerHint : Option TypeId
  /-- Whether what a confirmed pair contains has been compared. -/
  merged : Bool
deriving DecidableEq

namespace MatchEntry

variable {ι : Type} [KeyOrder ι]

/-- The entry of an old thing nothing is known about. -/
def blank (old : Handle ι) : MatchEntry ι := ⟨old, none, ∅, none, 0, 0, none, false⟩

/-- The number of votes for a candidate. -/
def votesFor (e : MatchEntry ι) (candidate : ι) : Nat := e.votes.getD candidate 0

/-- The lead of the best candidate over the runner-up. -/
def margin (e : MatchEntry ι) : Nat := e.highestVotes - e.secondVotes

/-- Count one more vote for a candidate. -/
def countVote [DecidableEq ι] (e : MatchEntry ι) (candidate : ι) : MatchEntry ι :=
  let count := e.votesFor candidate + 1
  let e := { e with votes := e.votes.insert candidate count }
  if e.highest = some candidate then { e with highestVotes := count }
  else if e.highestVotes < count then
    { e with highest := some candidate, highestVotes := count, secondVotes := e.highestVotes }
  else if e.secondVotes < count then { e with secondVotes := count }
  else e

/-- Count a vote, unless the target is fixed. -/
def addVote? [DecidableEq ι] (e : MatchEntry ι) (candidate : ι) : Option (MatchEntry ι) :=
  if e.target.isSome then none else some (e.countVote candidate)

/-- Take a candidate into account that has some votes. -/
def consider (e : MatchEntry ι) (candidate : ι) (count : Nat) : MatchEntry ι :=
  if e.highestVotes < count then
    { e with highest := some candidate, highestVotes := count, secondVotes := e.highestVotes }
  else if e.secondVotes < count then { e with secondVotes := count }
  else e

/-- Find the best candidate and the runner-up anew. -/
def recount (e : MatchEntry ι) : MatchEntry ι :=
  e.votes.toList.foldl (fun e (candidate, count) => e.consider candidate count)
    { e with highest := none, highestVotes := 0, secondVotes := 0 }

/-- Take back the votes for all candidates that fail a test. -/
def retainVotes (e : MatchEntry ι) (keep : ι → Bool) : MatchEntry ι :=
  let kept := e.votes.filter fun candidate _ => keep candidate
  if kept.size = e.votes.size then e else recount { e with votes := kept }

/-- Take back the votes for a candidate. -/
def removeVote [DecidableEq ι] (e : MatchEntry ι) (candidate : ι) : MatchEntry ι :=
  e.retainVotes (· ≠ candidate)

/-- The entry without its votes. -/
def withoutVotes (e : MatchEntry ι) : MatchEntry ι :=
  { e with votes := ∅, highest := none, highestVotes := 0, secondVotes := 0 }

end MatchEntry

end Namesake
