import Namesake.Program.Basic

/-! # Outlines

A program written down type by type, each with its members. Members are known by their descriptors;
a generic signature is given only where it says more.
-/

namespace Namesake

/-- A method as it is written down. -/
structure MethodOutline where
  name : String
  descriptor : String
  isStatic : Bool
  isSynthetic : Bool
  signature : Option MethodSignature
  body : Option (List Statement)

/-- The declaration of a method; without a signature of its own it has that of its descriptor. -/
def MethodOutline.decl (o : MethodOutline) : Except ModelError MethodDecl := do
  let erased ← MethodSignature.ofDescriptor o.descriptor
  return { o with signature := o.signature.getD erased }

/-- A field as it is written down. -/
structure FieldOutline where
  name : String
  descriptor : String
  isStatic : Bool
  type : Option TypeSig

/-- The declaration of a field; without a type of its own it has that of its descriptor. -/
def FieldOutline.decl (o : FieldOutline) : Except ModelError FieldDecl := do
  let erased ← TypeSig.ofDescriptor o.descriptor
  return { o with type := o.type.getD erased }

/-- A type as it is written down. -/
structure TypeOutline where
  decl : TypeDecl
  methods : List MethodOutline
  fields : List FieldOutline

namespace Program

/-- Add all types. -/
def addTypes (p : Program) (outlines : List TypeOutline) :
    Except ModelError (List (TypeId × TypeOutline) × Program) :=
  outlines.foldlM (fun (added, p) o => do
    let (id, p) ← p.addType o.decl
    return (added ++ [(id, o)], p)) ([], p)

/-- Add the methods and then the fields of a type. -/
def addMembers (p : Program) (id : TypeId) (o : TypeOutline) : Except ModelError Program := do
  let p ← o.methods.foldlM (fun p m => do return (← p.addMethod id (← m.decl)).2) p
  o.fields.foldlM (fun p f => do return (← p.addField id (← f.decl)).2) p

/-- The program of an outline. All types are numbered before the first member. -/
def ofOutline (outlines : List TypeOutline) : Except ModelError Program := do
  let (added, p) ← empty.addTypes outlines
  added.foldlM (fun p (id, o) => p.addMembers id o) p

end Program

end Namesake
