import Namesake.Merge.Ballot

/-! # Comparisons

A comparison of an old and a new piece of code is a list of checks, one after the other. A check is
a ballot, which has to be accepted for the comparison to go on, or a plain difference, which ends
it. The list depends on the two programs alone; `verdict` tells what becomes of it in a ledger.
-/

namespace Namesake

/-- A step of a comparison. -/
inductive Check where
  /-- Go on if the ballot is accepted. -/
  | ballot (b : Ballot)
  /-- The two pieces differ. -/
  | differ
deriving DecidableEq, Repr

/-- The checks of two pieces, in order. -/
abbrev Comparison := List Check

/-- Whether two pieces agree, and the ballots that were tried on the way. -/
structure Verdict where
  agrees : Bool
  ballots : List Ballot
deriving DecidableEq, Repr

namespace Comparison

/-- No check if two things are the same, a difference otherwise. -/
def same {α : Type} [DecidableEq α] (a b : α) : Comparison := if a = b then [] else [.differ]

/-- Check two lists item by item, as far as both go. -/
def zip {α β : Type} (checks : α → β → Comparison) (as : List α) (bs : List β) : Comparison :=
  (as.zip bs).flatMap fun (a, b) => checks a b

/-- What becomes of a comparison where the given ballots are accepted. -/
def verdict (accepted : Ballot → Bool) : Comparison → Verdict
  | [] => ⟨true, []⟩
  | .differ :: _ => ⟨false, []⟩
  | .ballot b :: rest =>
    if accepted b then
      let v := verdict accepted rest
      { v with ballots := b :: v.ballots }
    else ⟨false, [b]⟩

end Comparison

end Namesake
