import Namesake.Text.Split

/-! # Internal names of types

A nested type is named after the type around it, with a `$` in between. An anonymous one has a
number in place of a name of its own.
-/

namespace Namesake.TypeName

/-- Whether the name is one of a nested type. -/
def isInner (name : String) : Bool := name.toList.contains '$'

/-- The number a run of decimal digits denotes, where there is at least one. -/
def number? (text : List Char) : Option Nat :=
  if text.isEmpty || !text.all Char.isDigit then none
  else some (text.foldl (fun n c => n * 10 + (c.toNat - '0'.toNat)) 0)

/-- The number of an anonymous type: the digits after its last `$`, as far as they fit 32 bits. -/
def anonymousIndex? (name : String) : Option Nat :=
  match Text.splitLast? '$' name.toList with
  | some (_, suffix) => (number? suffix).filter (· < UInt32.size)
  | none => none

def isAnonymous (name : String) : Bool := (anonymousIndex? name).isSome

/-- The name of the type around a nested one. -/
def outer? (name : String) : Option String :=
  (Text.splitLast? '$' name.toList).map fun (outer, _) => String.ofList outer

end Namesake.TypeName
