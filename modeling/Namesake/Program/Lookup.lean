import Namesake.Explore
import Namesake.Program.Basic

/-! # Finding types and members

Names are resolved the way a running program would: instance methods and fields on a type or the
nearest superclass that declares them, static methods on a type or any supertype. Hierarchies may
be cyclic.
-/

namespace Namesake.Program

/-- The type of a name. -/
def typeNamed? (p : Program) (name : String) : Option TypeId := p.byName.get? name

/-! ## The hierarchy -/

/-- The superclass, if it is part of the program. -/
def superclass? (p : Program) (id : TypeId) : Option TypeId :=
  (p.type id).superclass >>= p.typeNamed?

/-- The interfaces that are part of the program, in the order they are declared. -/
def interfaces (p : Program) (id : TypeId) : List TypeId :=
  (p.type id).interfaces.filterMap p.typeNamed?

/-- The direct supertypes that are part of the program. -/
def supertypes (p : Program) (id : TypeId) : List TypeId :=
  (p.superclass? id).toList ++ p.interfaces id

/-- The direct subtypes in order, each as often as it names the type. -/
def subtypesOf (p : Program) (id : TypeId) : List TypeId :=
  p.typeIds.flatMap fun t => ((p.supertypes t).filter (· = id)).map fun _ => t

/-- The direct subtypes of every type that has any. -/
def subtypes (p : Program) : SortedMap TypeId (List TypeId) :=
  .ofList ((p.typeIds.map fun t => (t, p.subtypesOf t)).filter fun e => !e.2.isEmpty)

/-- A type and its superclasses, nearest first. -/
def superclassChain (p : Program) (id : TypeId) : List TypeId :=
  explore (fun t => (p.superclass? t).toList) (id :: p.typeIds) [] [id]

/-- A type and all its supertypes, what comes by the superclass before what comes by an interface,
and later interfaces before earlier ones. -/
def supertypeClosure (p : Program) (id : TypeId) : List TypeId :=
  explore (fun t => (p.superclass? t).toList ++ (p.interfaces t).reverse)
    (id :: p.typeIds) [] [id]

/-! ## Members -/

/-- The instance methods a type declares. -/
def instanceMethods (p : Program) (id : TypeId) : List MethodId :=
  (p.type id).methods.filter fun m => !(p.method m).isStatic

/-- The static methods a type declares. -/
def staticMethods (p : Program) (id : TypeId) : List MethodId :=
  (p.type id).methods.filter fun m => (p.method m).isStatic

/-- Whether a method has the given name and descriptor. -/
def isMethod (p : Program) (name descriptor : String) (m : MethodId) : Bool :=
  (p.method m).name = name && (p.method m).descriptor = descriptor

/-- The method a type declares under a name and descriptor, static or not. -/
def methodNamed? (p : Program) (id : TypeId) (name descriptor : String) : Option MethodId :=
  (p.type id).methods.find? (p.isMethod name descriptor)

/-- The static initializer of a type. -/
def staticInitializer? (p : Program) (id : TypeId) : Option MethodId :=
  (p.staticMethods id).find? fun m => (p.method m).isStaticInitializer

/-- The field a type declares under a name. -/
def fieldNamed? (p : Program) (id : TypeId) (name : String) : Option FieldId :=
  (p.type id).fields.find? fun f => (p.field f).name = name

/-- The instance method a call on a type refers to. -/
def findMethod? (p : Program) (id : TypeId) (name descriptor : String) : Option MethodId :=
  (p.superclassChain id).findSome? fun t =>
    (p.instanceMethods t).find? (p.isMethod name descriptor)

/-- The static method a call on a type refers to. -/
def findStaticMethod? (p : Program) (id : TypeId) (name descriptor : String) : Option MethodId :=
  (p.supertypeClosure id).findSome? fun t =>
    (p.staticMethods t).find? (p.isMethod name descriptor)

/-- The field an access on a type refers to. -/
def findField? (p : Program) (id : TypeId) (name : String) : Option FieldId :=
  (p.superclassChain id).findSome? fun t => p.fieldNamed? t name

end Namesake.Program
