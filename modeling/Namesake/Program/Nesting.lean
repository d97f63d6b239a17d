import Namesake.Program.Lookup

/-! # Nested types

Which types of a program are nested in which, by their names.
-/

namespace Namesake.Program

/-- The type around a nested one, if it is part of the program. -/
def outerType? (p : Program) (id : TypeId) : Option TypeId :=
  TypeName.outer? (p.type id).name >>= p.typeNamed?

/-- The types nested directly in a type. -/
def nestedIn (p : Program) (id : TypeId) : List TypeId :=
  p.typeIds.filter fun t => p.outerType? t = some id

end Namesake.Program
