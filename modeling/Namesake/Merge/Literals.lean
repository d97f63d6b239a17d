import Namesake.Merge.State
import Namesake.SortedMap.Sole

/-! # Matching types by text constants

A text constant that occurs in the methods of one type only speaks for that type. Two types are
confirmed if they share such constants, the old one shares them with no other new type, and no other
old type shares any with the new one alone.
-/

namespace Namesake

namespace Program

/-- The text constants of a method. -/
def literalsOf (p : Program) (id : MethodId) : List String :=
  Body.stringConstants (p.method id).statements

/-- The types of the text constants that occur in one type only. -/
def typeLiterals (p : Program) : SortedMap String TypeId :=
  soleOwners <| p.typeIds.flatMap fun t =>
    (p.type t).methods.flatMap fun m => (p.literalsOf m).map fun text => (text, t)

/-- The methods of the text constants that occur in one method of a type only. -/
def methodLiterals (p : Program) (id : TypeId) : SortedMap String MethodId :=
  soleOwners <| (p.type id).methods.flatMap fun m => (p.literalsOf m).map fun text => (text, m)

end Program

/-- The pairs of types that share text constants, each old type with its only partner. -/
def literalPairs (old new : Program) : SortedMap TypeId TypeId :=
  let partners := new.typeLiterals
  let pairs := soleOwners <| old.typeLiterals.toList.filterMap fun (text, o) =>
    (partners.get? text).map fun n => (o, n)
  pairs.filter fun _ n => pairs.values.count n == 1

/-- Confirm types by the text constants they alone contain. -/
def matchLiterals (c : Context) : List Action :=
  (literalPairs c.old.program c.new.program).toList.map fun (o, n) => .confirmType (.real o) n

end Namesake
