import Namesake.Ledger.Basic
import Namesake.MappingSet.Basic
import Namesake.OverrideGroups
import Namesake.Program.References
import Namesake.Settings

/-! # What a merge is about

Two builds of a program, each with what is worked out about it once, the plain names of the old one
without those of excluded packages, and the settings. None of it changes during a merge.
-/

namespace Namesake

/-- A program with its override groups and its reference index. -/
structure Build where
  program : Program
  groups : OverrideGroups
  references : ReferenceIndex
  groups_eq : groups = .build program
  references_eq : references = .build program

namespace Build

/-- Work out what is needed about a program. -/
def of (program : Program) : Build :=
  ⟨program, .build program, .build program, rfl, rfl⟩

end Build

/-- What a merge is about. -/
structure Context where
  old : Build
  new : Build
  /-- The plain names of the old build. -/
  names : MappingSet
  settings : MergeSettings

namespace Context

/-- The merge of an old program with its plain names into a new one. -/
def of (old : Program) (names : MappingSet) (new : Program) (settings : MergeSettings) : Context :=
  ⟨.of old, .of new, names.excludingPackages settings.excludedPackages, settings⟩

/-- The plain name of an old type, or its own name where it has none. -/
def oldTypeName (c : Context) (name : String) : String := c.names.mapType name

/-- The name the old build gives to a new type through its confirmed counterpart. -/
def newTypeName? (c : Context) (l : Ledger) (name : String) : Option String := do
  let new ← c.new.program.typeNamed? name
  match ← l.types.holder? new with
  | .real old => some (c.oldTypeName (c.old.program.type old).name)
  | .synthetic s => some s.name

end Context

end Namesake
