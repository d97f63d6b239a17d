import Namesake.Comparison.Code
import Namesake.Merge.Literals

/-! # Following up on confirmed pairs

Each confirmed pair is followed up once. Two types speak for their superclasses, for interfaces of
about the same size, for their lone methods and for methods with the same text constants; two
methods or fields are compared piece by piece.
-/

namespace Namesake

/-- The interfaces of up to so many methods more or fewer may belong together. -/
def closeDistance : Nat := 2

/-- An interface that differs by less than so many methods from one makes it hard to tell. -/
def ambiguousDistance : Nat := 6

/-- The difference of two numbers. -/
def distance (a b : Nat) : Nat := (a - b) + (b - a)

/-- Go through interfaces and their sizes for the only one close to a size. It must be the only one
in the wider distance, too. -/
def soleClose (size : Nat) (found : Option TypeId) : List (TypeId × Nat) → Option TypeId
  | [] => found
  | (i, other) :: rest =>
    if distance size other ≤ closeDistance then
      if found.isSome then none else soleClose size (some i) rest
    else if distance size other < ambiguousDistance then none
    else soleClose size found rest

/-- Pair the interfaces of two confirmed types by size. -/
def pairInterfaces (c : Context) (l : Ledger) (o n : TypeId) : List Ballot :=
  let (old, new) := (c.old.program, c.new.program)
  let unclaimed := (new.interfaces n).filter fun i => !l.types.isClaimed i
  let sized := unclaimed.map fun i => (i, (new.type i).methods.length)
  (old.interfaces o).filterMap fun i =>
    if (l.types.target? (.real i)).isSome then none
    else (soleClose (old.type i).methods.length none sized).map fun j => .type i j

/-- The only instance method of a type that is no bridge. -/
def Program.loneMethod? (p : Program) (id : TypeId) : Option MethodId :=
  match (p.instanceMethods id).filter fun m => !(p.method m).isSynthetic with
  | [only] => some only
  | _ => none

/-- What two confirmed types speak for. -/
def expandTypes (c : Context) (l : Ledger) (o n : TypeId) : List Action :=
  let (old, new) := (c.old.program, c.new.program)
  let superclasses : List Ballot := match old.superclass? o, new.superclass? n with
    | some os, some ns => [.type os ns]
    | _, _ => []
  let lone : List Action := match old.loneMethod? o, new.loneMethod? n with
    | some om, some nm => [.confirmMethod (.real om) nm]
    | _, _ => []
  let literals := new.methodLiterals n
  let speaking : List Ballot := (old.methodLiterals o).toList.filterMap fun (text, om) =>
    (literals.get? text).map fun nm => .method om nm
  (superclasses ++ pairInterfaces c l o n).map .vote ++ lone ++ speaking.map .vote

/-- Follow up on confirmed types. -/
def mergeTypes (c : Context) (l : Ledger) : List Action :=
  l.types.unmergedPairs.flatMap fun (o, n) => .mergedType o :: expandTypes c l o n

/-- The ballots a comparison tries in a ledger. -/
def triedBallots (c : Context) (l : Ledger) (checks : Comparison) : List Ballot :=
  (checks.verdict (Ballot.accepted c l)).ballots

/-- Go through a comparison, casting each ballot as it comes. A difference, or a ballot that is not
accepted, ends it; tell whether the end was reached. -/
def Work.compare (c : Context) : Comparison → Work Bool
  | [] => return true
  | .differ :: _ => return false
  | .ballot b :: rest => do
    if ← Work.vote c b then Work.compare c rest else return false

/-- Compare the confirmed methods. -/
def mergeMethods (c : Context) (l : Ledger) : List Action :=
  let (old, new) := (c.old.program, c.new.program)
  l.methods.unmergedPairs.flatMap fun (o, n) =>
    .mergedMethod o ::
      (triedBallots c l (.methods old new (old.method o) (new.method n))).map .vote

/-- Compare the confirmed fields. -/
def mergeFields (c : Context) (l : Ledger) : List Action :=
  let (old, new) := (c.old.program, c.new.program)
  l.fields.unmergedPairs.flatMap fun (o, n) =>
    .mergedField o ::
      (triedBallots c l (.fields old new (old.field o) (new.field n))).map .vote

end Namesake
