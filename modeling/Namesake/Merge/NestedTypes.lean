import Namesake.Merge.State
import Namesake.Program.Nesting

/-! # Matching nested types

The types around two confirmed types belong together, and what is nested in them often tells itself
apart: a single anonymous type, a single named one, enums by their constants.
-/

namespace Namesake

/-- The number of constants an old enum shares with a new one. -/
def sharedConstants (old new : TypeEntry) : Nat :=
  (old.enumConstants.filter new.enumConstants.contains).length

/-- Go through new types for the enum that shares most constants with an old one, keeping the best
so far and the number it shares; two equally good ones cancel each other. -/
def bestEnum (new : Program) (old : TypeEntry) (best : Option TypeId) (shared : Nat) :
    List TypeId → Option TypeId
  | [] => best
  | n :: rest =>
    let e := new.type n
    if !e.isEnum then bestEnum new old best shared rest
    else
      let overlap := sharedConstants old e
      if shared < overlap then bestEnum new old (some n) overlap rest
      else if overlap = shared then bestEnum new old none shared rest
      else bestEnum new old best shared rest

/-- Pair types that are nested in two confirmed ones. -/
def pairNested (c : Context) (l : Ledger) (olds news : List TypeId) : List (TypeId × TypeId) :=
  let (old, new) := (c.old.program, c.new.program)
  let (oldAnonymous, oldNamed) := olds.partition fun t => (old.type t).isAnonymous
  let (newAnonymous, newNamed) := news.partition fun t => (new.type t).isAnonymous
  let anonymous := match oldAnonymous, newAnonymous with
    | [o], [n] => [(o, n)]
    | _, _ => []
  let named := match oldNamed, newNamed with
    | [o], [n] => [(o, n)]
    | _, _ => oldNamed.filterMap fun o =>
      if !(old.type o).isEnum || (l.types.target? (.real o)).isSome then none
      else (bestEnum new (old.type o) none 0 newNamed).map fun n => (o, n)
  anonymous ++ named

/-- Vote for types around and inside confirmed ones. -/
def matchNested (c : Context) (l : Ledger) : List Ballot :=
  let (old, new) := (c.old.program, c.new.program)
  l.types.pairs.flatMap fun (o, n) =>
    let around := match old.outerType? o, new.outerType? n with
      | some oo, some nn => if (l.types.target? (.real oo)).isNone then [(oo, nn)] else []
      | _, _ => []
    (around ++ pairNested c l (old.nestedIn o) (new.nestedIn n)).map fun (o, n) => .type o n

end Namesake
