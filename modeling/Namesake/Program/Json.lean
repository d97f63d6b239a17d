import Namesake.Code.Json
import Namesake.Program.Validate

/-! # Programs as JSON

The stored form lists types, methods and fields by number and carries the name index with it. An
entry is an object of its parts, or an array that lists all of them in their order. A program that
is read has to be valid.
-/

namespace Namesake

namespace TypeKind

def toJson : TypeKind → Json
  | plain => .str "Class"
  | interface => .str "Interface"
  | enum => .str "Enum"
  | annotationType => .str "Annotation"

def ofJson? (j : Json) : Option TypeKind :=
  match j.name? with
  | some "Class" => some plain
  | some "Interface" => some interface
  | some "Enum" => some enum
  | some "Annotation" => some annotationType
  | _ => none

end TypeKind

namespace Json

/-- A number of a type, method or field. -/
def id? (j : Json) : Option Nat := j.nat? 32

/-- A method body. -/
def body? : Json → Option (List Statement) := list? Statement.ofJson?

end Json

namespace TypeEntry

def toJson (t : TypeEntry) : Json :=
  .obj [("name", .str t.name), ("kind", t.kind.toJson), ("superclass", .ofOption .str t.superclass),
    ("interfaces", .ofList .str t.interfaces),
    ("signature", .ofOption ClassSignature.toJson t.signature),
    ("enum_constants", .ofList .str t.enumConstants),
    ("methods", .ofList (fun m => .ofNat m.index) t.methods),
    ("fields", .ofList (fun f => .ofNat f.index) t.fields)]

def ofJson? (j : Json) : Option TypeEntry := do
  let r ← j.fullRecord? ["name", "kind", "superclass", "interfaces", "signature", "enum_constants",
    "methods", "fields"]
  let name ← r.required "name" Json.str?
  let kind ← r.required "kind" TypeKind.ofJson?
  let superclass ← r.optional "superclass" Json.str?
  let interfaces ← r.required "interfaces" (Json.list? Json.str?)
  let signature ← r.optional "signature" ClassSignature.ofJson?
  let enumConstants ← r.required "enum_constants" (Json.list? Json.str?)
  let methods ← r.required "methods" (Json.list? Json.id?)
  let fields ← r.required "fields" (Json.list? Json.id?)
  return { name, kind, superclass, interfaces, signature, enumConstants,
           methods := methods.map .mk, fields := fields.map .mk }

end TypeEntry

namespace MethodEntry

def toJson (m : MethodEntry) : Json :=
  .obj [("owner", .ofNat m.owner.index), ("name", .str m.name), ("descriptor", .str m.descriptor),
    ("is_static", .bool m.isStatic), ("is_synthetic", .bool m.isSynthetic),
    ("signature", m.signature.toJson),
    ("body", .ofOption (.ofList Statement.toJson) m.body)]

def ofJson? (j : Json) : Option MethodEntry := do
  let r ← j.fullRecord? ["owner", "name", "descriptor", "is_static", "is_synthetic", "signature",
    "body"]
  let owner ← r.required "owner" Json.id?
  let name ← r.required "name" Json.str?
  let descriptor ← r.required "descriptor" Json.str?
  let isStatic ← r.required "is_static" Json.bool?
  let isSynthetic ← r.required "is_synthetic" Json.bool?
  let signature ← r.required "signature" MethodSignature.ofJson?
  let body ← r.optional "body" Json.body?
  return { owner := ⟨owner⟩, name, descriptor, isStatic, isSynthetic, signature, body }

end MethodEntry

namespace FieldEntry

def toJson (f : FieldEntry) : Json :=
  .obj [("owner", .ofNat f.owner.index), ("name", .str f.name), ("descriptor", .str f.descriptor),
    ("ty", f.type.toJson), ("is_static", .bool f.isStatic)]

def ofJson? (j : Json) : Option FieldEntry := do
  let r ← j.fullRecord? ["owner", "name", "descriptor", "ty", "is_static"]
  let owner ← r.required "owner" Json.id?
  let name ← r.required "name" Json.str?
  let descriptor ← r.required "descriptor" Json.str?
  let type ← r.required "ty" TypeSig.ofJson?
  let isStatic ← r.required "is_static" Json.bool?
  return { owner := ⟨owner⟩, name, descriptor, type, isStatic }

end FieldEntry

namespace Program

/-- Why a stored program cannot be read. -/
inductive ReadError where
  /-- A part is missing or of the wrong shape. -/
  | illFormed
  /-- The parts do not agree. -/
  | invalid (fault : ModelError)
deriving DecidableEq, Repr

def toJson (p : Program) : Json :=
  .obj [("types", .ofList TypeEntry.toJson p.types),
    ("methods", .ofList MethodEntry.toJson p.methods),
    ("fields", .ofList FieldEntry.toJson p.fields),
    ("by_name", .obj (p.byName.toList.map fun (name, id) => (name, .ofNat id.index)))]

/-- Read the parts of a stored program. -/
def parts? (j : Json) : Option Program := do
  let types ← j.required "types" (Json.list? TypeEntry.ofJson?)
  let methods ← j.required "methods" (Json.list? MethodEntry.ofJson?)
  let fields ← j.required "fields" (Json.list? FieldEntry.ofJson?)
  let byName ← j.required "by_name" fun
    | .obj members =>
      (SortedMap.ofList members).toList.mapM fun (name, j) => do return (name, TypeId.mk (← j.id?))
    | _ => none
  return ⟨types, methods, fields, .ofList byName⟩

/-- Read a stored program. -/
def ofJson (j : Json) : Except ReadError Program :=
  match parts? j with
  | none => .error .illFormed
  | some p =>
    match p.validate with
    | .error fault => .error (.invalid fault)
    | .ok () => .ok p

end Program

end Namesake
