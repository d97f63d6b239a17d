/-! # Faults of a program description -/

namespace Namesake

/-- Why a program, or a part of one, is refused. -/
inductive ModelError where
  /-- The text is no descriptor of the kind asked for. -/
  | malformedDescriptor (text : String)
  | duplicateType (name : String)
  | unknownType (id : Nat)
  | unknownMethod (id : Nat)
  | unknownField (id : Nat)
  /-- A member that is not listed exactly once, by the type that owns it. -/
  | misplacedMember (member : String)
  /-- The name index and the types disagree about a name. -/
  | nameIndex (name : String)
deriving DecidableEq, Repr, Inhabited

namespace ModelError

/-- The wording of a fault. -/
def message : ModelError → String
  | malformedDescriptor text => "malformed descriptor `" ++ text ++ "`"
  | duplicateType name => "type `" ++ name ++ "` is declared twice"
  | unknownType id => "no type with id " ++ toString id ++ " in this program"
  | unknownMethod id => "no method with id " ++ toString id ++ " in this program"
  | unknownField id => "no field with id " ++ toString id ++ " in this program"
  | misplacedMember member =>
    "member `" ++ member ++ "` is not listed exactly once by its owning type"
  | nameIndex name => "name index disagrees with type `" ++ name ++ "`"

end ModelError

end Namesake
