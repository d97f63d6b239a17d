import Namesake.Json.Basic
import Namesake.MappingSet.Basic

/-! # Stored mapping sets

On file a method is keyed by its name and descriptor in one text. Reading adds every stored name in
key order, under the usual rules: a name that cannot be added is dropped, and so is a method key
without a descriptor.
-/

namespace Namesake

/-- The stored form of a mapping set. -/
structure StoredMappings where
  types : SortedMap String String
  fields : SortedMap String (SortedMap String String)
  /-- By owner, then by name and descriptor joined. -/
  methods : SortedMap String (SortedMap String String)
deriving DecidableEq

namespace MappingSet

/-- The set a stored form stands for. -/
def load (stored : StoredMappings) : MappingSet :=
  let types := stored.types.toList.foldl (fun s (name, plain) => s.addType name plain) ∅
  let fields := stored.fields.toList.foldl (fun s (owner, names) =>
    names.toList.foldl (fun s (name, plain) => s.addField owner name plain) s) types
  stored.methods.toList.foldl (fun s (owner, names) =>
    names.toList.foldl (fun s (key, plain) =>
      match Text.splitFirst? '(' key.toList with
      | some (name, rest) =>
        s.addMethod owner (String.ofList name) (String.ofList ('(' :: rest)) plain
      | none => s) s) fields

/-- The stored form of a set. -/
def dump (s : MappingSet) : StoredMappings where
  types := s.types
  fields := s.fields
  methods := s.methods.mapValues fun _ names =>
    .ofList (names.toList.map fun ((name, descriptor), plain) => (name ++ descriptor, plain))

end MappingSet

namespace StoredMappings

private def textMapToJson (m : SortedMap String String) : Json :=
  .obj (m.toList.map fun (key, text) => (key, .str text))

private def nestedToJson (m : SortedMap String (SortedMap String String)) : Json :=
  .obj (m.toList.map fun (key, inner) => (key, textMapToJson inner))

/-- Read the members of an object, ordered by name. -/
private def mapOf? {α : Type} (read : Json → Option α) : Json → Option (SortedMap String α)
  | .obj members => do
    let entries ← (SortedMap.ofList members).toList.mapM fun (key, j) => do
      return (key, ← read j)
    return .ofList entries
  | _ => none

def toJson (s : StoredMappings) : Json :=
  .obj [("types", textMapToJson s.types), ("fields", nestedToJson s.fields),
    ("methods", nestedToJson s.methods)]

/-- Read a stored form. Each of its three parts may be missing; they may also stand in an array, in
the order types, fields, methods. -/
def ofJson? (j : Json) : Option StoredMappings := do
  let r ← j.record? ["types", "fields", "methods"] 0
  let types ← r.withDefault "types" ∅ (mapOf? Json.str?)
  let fields ← r.withDefault "fields" ∅ (mapOf? (mapOf? Json.str?))
  let methods ← r.withDefault "methods" ∅ (mapOf? (mapOf? Json.str?))
  return ⟨types, fields, methods⟩

end StoredMappings

end Namesake
