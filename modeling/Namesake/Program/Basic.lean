import Namesake.Code.Basic
import Namesake.ModelError
import Namesake.Program.TypeName
import Namesake.Signature.Descriptor
import Namesake.SortedMap.Lemmas

/-! # Programs

All types of one build, with their members. Types, methods and fields are numbered in the order they
were added; a type lists its members, a member knows its owner, and an index finds types by name.
Everything is looked up by number without failing: a number that is out of range stands for a blank
entry. Whether a number is in range of the program it is looked up in is told by functions that note
their lookups (`Namesake.Traced`).
-/

namespace Namesake

structure TypeId where
  index : Nat
deriving DecidableEq, Repr, Inhabited

structure MethodId where
  index : Nat
deriving DecidableEq, Repr, Inhabited

structure FieldId where
  index : Nat
deriving DecidableEq, Repr, Inhabited

instance : KeyOrder TypeId := .ofRank TypeId.index fun {a b} h => by cases a; cases b; simp_all
instance : KeyOrder MethodId := .ofRank MethodId.index fun {a b} h => by cases a; cases b; simp_all
instance : KeyOrder FieldId := .ofRank FieldId.index fun {a b} h => by cases a; cases b; simp_all

inductive TypeKind where
  | plain
  | interface
  | enum
  | annotationType
deriving DecidableEq, Repr, Inhabited

/-- What a type declares, apart from its members. -/
structure TypeDecl where
  name : String
  kind : TypeKind
  superclass : Option String
  interfaces : List String
  signature : Option ClassSignature
  /-- The names of its constants, in the order of their declarations. -/
  enumConstants : List String
deriving DecidableEq, Repr, Inhabited

/-- A type of a program. -/
structure TypeEntry extends TypeDecl where
  methods : List MethodId
  fields : List FieldId
deriving DecidableEq, Repr, Inhabited

namespace TypeEntry

def isEnum (t : TypeEntry) : Bool := t.kind = .enum

def isInterface (t : TypeEntry) : Bool := t.kind = .interface || t.kind = .annotationType

def isInner (t : TypeEntry) : Bool := TypeName.isInner t.name

def isAnonymous (t : TypeEntry) : Bool := TypeName.isAnonymous t.name

end TypeEntry

/-- What a method declares. -/
structure MethodDecl where
  name : String
  descriptor : String
  isStatic : Bool
  /-- Made by the compiler, as a bridge between signatures. -/
  isSynthetic : Bool
  signature : MethodSignature
  /-- Absent for a method without code. -/
  body : Option (List Statement)
deriving Inhabited

/-- A method of a program. -/
structure MethodEntry extends MethodDecl where
  owner : TypeId
deriving Inhabited

namespace MethodEntry

def isConstructor (m : MethodEntry) : Bool := m.name = "<init>"

def isStaticInitializer (m : MethodEntry) : Bool := m.name = "<clinit>"

/-- The statements of the body, none for a method without code. -/
def statements (m : MethodEntry) : List Statement := m.body.getD []

end MethodEntry

/-- What a field declares. -/
structure FieldDecl where
  name : String
  descriptor : String
  type : TypeSig
  isStatic : Bool
deriving DecidableEq, Repr, Inhabited

/-- A field of a program. -/
structure FieldEntry extends FieldDecl where
  owner : TypeId
deriving DecidableEq, Repr, Inhabited

/-- Every type of one build. -/
structure Program where
  types : List TypeEntry
  methods : List MethodEntry
  fields : List FieldEntry
  byName : SortedMap String TypeId
deriving Inhabited

namespace Program

def empty : Program := ⟨[], [], [], ∅⟩

/-! ## Looking up by number -/

def type (p : Program) (id : TypeId) : TypeEntry := p.types.getD id.index default

def method (p : Program) (id : MethodId) : MethodEntry := p.methods.getD id.index default

def field (p : Program) (id : FieldId) : FieldEntry := p.fields.getD id.index default

def typeIds (p : Program) : List TypeId := (List.range p.types.length).map .mk

def methodIds (p : Program) : List MethodId := (List.range p.methods.length).map .mk

def fieldIds (p : Program) : List FieldId := (List.range p.fields.length).map .mk

/-- The name of the type that owns a method. -/
def methodOwnerName (p : Program) (id : MethodId) : String := (p.type (p.method id).owner).name

/-- The name of the type that owns a field. -/
def fieldOwnerName (p : Program) (id : FieldId) : String := (p.type (p.field id).owner).name

/-! ## Building -/

/-- Add a type under a name that is not taken. -/
def addType (p : Program) (decl : TypeDecl) : Except ModelError (TypeId × Program) :=
  if p.byName.contains decl.name then .error (.duplicateType decl.name)
  else
    let id : TypeId := ⟨p.types.length⟩
    .ok (id, { p with
      types := p.types ++ [{ decl with methods := [], fields := [] }]
      byName := p.byName.insert decl.name id })

/-- Add a method to a type. -/
def addMethod (p : Program) (owner : TypeId) (decl : MethodDecl) :
    Except ModelError (MethodId × Program) :=
  if owner.index < p.types.length then
    let id : MethodId := ⟨p.methods.length⟩
    .ok (id, { p with
      types := p.types.modify owner.index fun t => { t with methods := t.methods ++ [id] }
      methods := p.methods ++ [{ decl with owner }] })
  else .error (.unknownType owner.index)

/-- Add a field to a type. -/
def addField (p : Program) (owner : TypeId) (decl : FieldDecl) :
    Except ModelError (FieldId × Program) :=
  if owner.index < p.types.length then
    let id : FieldId := ⟨p.fields.length⟩
    .ok (id, { p with
      types := p.types.modify owner.index fun t => { t with fields := t.fields ++ [id] }
      fields := p.fields ++ [{ decl with owner }] })
  else .error (.unknownType owner.index)

end Program

end Namesake
