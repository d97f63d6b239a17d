import Namesake.Merge.State

/-! # Matching overrides

Methods that override each other keep doing so: the overrides of a confirmed method are voted onto
the overrides of its counterpart, type by type. Each group of overrides is gone through once, for
the first confirmed method in it.
-/

namespace Namesake

/-- The ballots for the overrides of a confirmed method. -/
def overrideBallots (c : Context) (l : Ledger) (group : OverrideGroup) (new : MethodId) :
    List Ballot :=
  match c.new.groups.group? new with
  | none => []
  | some group' =>
    group.members.filterMap fun sibling =>
      if l.methods.isConfirmed (.real sibling) then none
      else do
        let owner ← l.types.target? (.real (c.old.program.method sibling).owner)
        let candidate ← group'.overrideOn? c.new.program owner
        return .method sibling candidate

/-- Go through confirmed pairs, leaving out groups whose archetypes were met before. -/
def overridesFrom (c : Context) (l : Ledger) (met : List MethodId) :
    List (MethodId × MethodId) → List Ballot
  | [] => []
  | (o, n) :: rest =>
    match c.old.groups.group? o with
    | none => overridesFrom c l met rest
    | some group =>
      if group.members.length ≤ 1 || met.contains group.archetype then overridesFrom c l met rest
      else overrideBallots c l group n ++ overridesFrom c l (group.archetype :: met) rest

/-- Vote for the overrides of confirmed methods. -/
def matchOverrides (c : Context) (l : Ledger) : List Ballot := overridesFrom c l [] l.methods.pairs

end Namesake
