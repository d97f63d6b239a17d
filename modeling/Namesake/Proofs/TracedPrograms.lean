import Namesake.Proofs.Ranges
import Namesake.Proofs.Tracing

/-! # What a program is looked up for

The traced functions of a program, each named like the plain one: the hierarchy, members and how
they are found, and nesting. In a coherent program a search that starts from a type of the program
looks up nothing but what the program has.
-/

namespace Namesake.Traced

/-! ## Lookups -/

/-- Look up a type. -/
def type (p : Program) (t : TypeId) : Traced TypeEntry := ⟨p.type t, [.type p t]⟩

/-- Look up a method. -/
def method (p : Program) (m : MethodId) : Traced MethodEntry := ⟨p.method m, [.method p m]⟩

/-- Look up a field. -/
def field (p : Program) (f : FieldId) : Traced FieldEntry := ⟨p.field f, [.field p f]⟩

section

variable (p : Program)

@[simp]
theorem value_type (t : TypeId) : (type p t).value = p.type t := rfl

@[simp]
theorem value_method (m : MethodId) : (method p m).value = p.method m := rfl

@[simp]
theorem value_field (f : FieldId) : (field p f).value = p.field f := rfl

/-! ## The hierarchy -/

def superclass? (t : TypeId) : Traced (Option TypeId) := do
  return (← type p t).superclass >>= p.typeNamed?

def interfaces (t : TypeId) : Traced (List TypeId) := do
  return (← type p t).interfaces.filterMap p.typeNamed?

def supertypes (t : TypeId) : Traced (List TypeId) := do
  return (← superclass? p t).toList ++ (← interfaces p t)

def subtypesOf (id : TypeId) : Traced (List TypeId) :=
  p.typeIds.flatMapM fun t => do return ((← supertypes p t).filter (· = id)).map fun _ => t

def subtypes : Traced (SortedMap TypeId (List TypeId)) := do
  let listed ← p.typeIds.mapM fun t => do return (t, ← subtypesOf p t)
  return .ofList (listed.filter fun e => !e.2.isEmpty)

def superclassChain (t : TypeId) : Traced (List TypeId) :=
  explore (fun t => do return (← superclass? p t).toList) (t :: p.typeIds) [] [t]

def supertypeClosure (t : TypeId) : Traced (List TypeId) :=
  explore (fun t => do return (← superclass? p t).toList ++ (← interfaces p t).reverse)
    (t :: p.typeIds) [] [t]

def supertypesFirst : Traced (List TypeId) :=
  postorder (supertypes p) p.typeIds [] (p.typeIds.map .enter)

/-! ## Members -/

def instanceMethods (t : TypeId) : Traced (List MethodId) := do
  filter (fun m => do return !(← method p m).isStatic) (← type p t).methods

def staticMethods (t : TypeId) : Traced (List MethodId) := do
  filter (fun m => do return (← method p m).isStatic) (← type p t).methods

def isMethod (name descriptor : String) (m : MethodId) : Traced Bool := do
  let e ← method p m
  return e.name = name && e.descriptor = descriptor

def methodNamed? (t : TypeId) (name descriptor : String) : Traced (Option MethodId) := do
  (← type p t).methods.findM? (isMethod p name descriptor)

def staticInitializer? (t : TypeId) : Traced (Option MethodId) := do
  (← staticMethods p t).findM? fun m => do return (← method p m).isStaticInitializer

def fieldNamed? (t : TypeId) (name : String) : Traced (Option FieldId) := do
  (← type p t).fields.findM? fun f => do return (← field p f).name = name

def findMethod? (t : TypeId) (name descriptor : String) : Traced (Option MethodId) := do
  (← superclassChain p t).findSomeM? fun t => do
    (← instanceMethods p t).findM? (isMethod p name descriptor)

def findStaticMethod? (t : TypeId) (name descriptor : String) : Traced (Option MethodId) := do
  (← supertypeClosure p t).findSomeM? fun t => do
    (← staticMethods p t).findM? (isMethod p name descriptor)

def findField? (t : TypeId) (name : String) : Traced (Option FieldId) := do
  (← superclassChain p t).findSomeM? fun t => fieldNamed? p t name

def methodOwnerName (m : MethodId) : Traced String := do
  return (← type p (← method p m).owner).name

def fieldOwnerName (f : FieldId) : Traced String := do
  return (← type p (← field p f).owner).name

def outerType? (t : TypeId) : Traced (Option TypeId) := do
  return TypeName.outer? (← type p t).name >>= p.typeNamed?

def nestedIn (id : TypeId) : Traced (List TypeId) :=
  filter (fun t => do return (← outerType? p t) = some id) p.typeIds

variable (t : TypeId)

@[simp]
theorem value_superclass? : (superclass? p t).value = p.superclass? t := rfl

@[simp]
theorem value_interfaces : (interfaces p t).value = p.interfaces t := rfl

@[simp]
theorem value_supertypes : (supertypes p t).value = p.supertypes t := rfl

@[simp]
theorem value_subtypesOf : (subtypesOf p t).value = p.subtypesOf t := by
  simp [subtypesOf, Program.subtypesOf]

@[simp]
theorem value_subtypes : (subtypes p).value = p.subtypes := by
  simp [subtypes, Program.subtypes]

@[simp]
theorem value_superclassChain : (superclassChain p t).value = p.superclassChain t := by
  simp [superclassChain, Program.superclassChain]

@[simp]
theorem value_supertypeClosure : (supertypeClosure p t).value = p.supertypeClosure t := by
  simp [supertypeClosure, Program.supertypeClosure]

@[simp]
theorem value_supertypesFirst : (supertypesFirst p).value = p.supertypesFirst := by
  simp [supertypesFirst, Program.supertypesFirst]

@[simp]
theorem value_instanceMethods : (instanceMethods p t).value = p.instanceMethods t := by
  simp [instanceMethods, Program.instanceMethods]

@[simp]
theorem value_staticMethods : (staticMethods p t).value = p.staticMethods t := by
  simp [staticMethods, Program.staticMethods]

@[simp]
theorem value_isMethod (name descriptor : String) (m : MethodId) :
    (isMethod p name descriptor m).value = p.isMethod name descriptor m := rfl

@[simp]
theorem value_methodNamed? (name descriptor : String) :
    (methodNamed? p t name descriptor).value = p.methodNamed? t name descriptor := by
  simp [methodNamed?, Program.methodNamed?]

@[simp]
theorem value_staticInitializer? : (staticInitializer? p t).value = p.staticInitializer? t := by
  simp [staticInitializer?, Program.staticInitializer?]

@[simp]
theorem value_fieldNamed? (name : String) :
    (fieldNamed? p t name).value = p.fieldNamed? t name := by
  rw [fieldNamed?, value_bind, value_findM?]
  rfl

@[simp]
theorem value_findMethod? (name descriptor : String) :
    (findMethod? p t name descriptor).value = p.findMethod? t name descriptor := by
  simp [findMethod?, Program.findMethod?]

@[simp]
theorem value_findStaticMethod? (name descriptor : String) :
    (findStaticMethod? p t name descriptor).value = p.findStaticMethod? t name descriptor := by
  simp [findStaticMethod?, Program.findStaticMethod?]

@[simp]
theorem value_findField? (name : String) : (findField? p t name).value = p.findField? t name := by
  simp [findField?, Program.findField?]

@[simp]
theorem value_methodOwnerName (m : MethodId) :
    (methodOwnerName p m).value = p.methodOwnerName m := rfl

@[simp]
theorem value_fieldOwnerName (f : FieldId) : (fieldOwnerName p f).value = p.fieldOwnerName f := rfl

@[simp]
theorem value_outerType? : (outerType? p t).value = p.outerType? t := rfl

@[simp]
theorem value_nestedIn : (nestedIn p t).value = p.nestedIn t := by
  rw [nestedIn, value_filter]
  rfl

end

/-! ### In range -/

section

variable {p : Program}

@[simp]
theorem inRange_type {t : TypeId} : (type p t).InRange ↔ p.HasType t := by
  simp [InRange, type, Lookup.InRange]

@[simp]
theorem inRange_method {m : MethodId} : (method p m).InRange ↔ p.HasMethod m := by
  simp [InRange, method, Lookup.InRange]

@[simp]
theorem inRange_field {f : FieldId} : (field p f).InRange ↔ p.HasField f := by
  simp [InRange, field, Lookup.InRange]

@[simp]
theorem inRange_superclass? {t : TypeId} : (superclass? p t).InRange ↔ p.HasType t := by
  simp [superclass?]

@[simp]
theorem inRange_interfaces {t : TypeId} : (interfaces p t).InRange ↔ p.HasType t := by
  simp [interfaces]

@[simp]
theorem inRange_supertypes {t : TypeId} : (supertypes p t).InRange ↔ p.HasType t := by
  simp [supertypes]

@[simp]
theorem inRange_outerType? {t : TypeId} : (outerType? p t).InRange ↔ p.HasType t := by
  simp [outerType?]

@[simp]
theorem inRange_isMethod {name descriptor : String} {m : MethodId} :
    (isMethod p name descriptor m).InRange ↔ p.HasMethod m := by
  simp [isMethod]

theorem inRange_subtypesOf (t : TypeId) : (subtypesOf p t).InRange := by
  simp [subtypesOf, Program.mem_typeIds]

theorem inRange_subtypes : (subtypes p).InRange := by
  simp [subtypes, inRange_subtypesOf]

theorem inRange_nestedIn (t : TypeId) : (nestedIn p t).InRange := by
  simp [nestedIn, Program.mem_typeIds]

variable (coherent : p.Coherent)

include coherent

theorem inRange_superclassChain {t : TypeId} (inside : p.HasType t) :
    (superclassChain p t).InRange := by
  refine inRange_explore (motive := p.HasType) ?_ (by simpa using inside)
  intro u inside
  refine ⟨by simpa using inside, fun v found => ?_⟩
  exact coherent.hasType_of_superclass? (Option.mem_toList.mp found)

theorem inRange_supertypeClosure {t : TypeId} (inside : p.HasType t) :
    (supertypeClosure p t).InRange := by
  refine inRange_explore (motive := p.HasType) ?_ (by simpa using inside)
  intro u inside
  refine ⟨by simpa using inside, fun v found => ?_⟩
  refine coherent.hasType_of_mem_supertypes (t := u) (List.mem_append.mpr ?_)
  exact (List.mem_append.mp found).imp_right List.mem_reverse.mp

theorem inRange_supertypesFirst : (supertypesFirst p).InRange := by
  refine inRange_postorder (motive := p.HasType) ?_ (by simp [Program.mem_typeIds])
  intro t inside
  exact ⟨by simpa using inside, fun u found => coherent.hasType_of_mem_supertypes found⟩

variable {t : TypeId} (inside : p.HasType t)

include inside

theorem inRange_instanceMethods : (instanceMethods p t).InRange := by
  simpa [instanceMethods, inside] using fun m listed => (coherent.methodListed listed).1

theorem inRange_staticMethods : (staticMethods p t).InRange := by
  simpa [staticMethods, inside] using fun m listed => (coherent.methodListed listed).1

theorem inRange_methodNamed? (name descriptor : String) :
    (methodNamed? p t name descriptor).InRange := by
  rw [methodNamed?, inRange_bind, inRange_type]
  refine ⟨inside, inRange_findM? fun m listed => ?_⟩
  exact inRange_isMethod.mpr (coherent.methodListed listed).1

theorem inRange_staticInitializer? : (staticInitializer? p t).InRange := by
  rw [staticInitializer?, inRange_bind, value_staticMethods]
  refine ⟨inRange_staticMethods coherent inside, inRange_findM? fun m listed => ?_⟩
  simpa using coherent.hasMethod_of_mem_staticMethods listed

theorem inRange_fieldNamed? (name : String) : (fieldNamed? p t name).InRange := by
  rw [fieldNamed?, inRange_bind, inRange_type]
  refine ⟨inside, inRange_findM? fun f listed => ?_⟩
  simpa using (coherent.fieldListed listed).1

theorem inRange_findMethod? (name descriptor : String) :
    (findMethod? p t name descriptor).InRange := by
  rw [findMethod?, inRange_bind, value_superclassChain]
  refine ⟨inRange_superclassChain coherent inside, inRange_findSomeM? fun u above => ?_⟩
  rw [inRange_bind, value_instanceMethods]
  refine ⟨inRange_instanceMethods coherent (coherent.closed.superclasses inside above),
    inRange_findM? fun m listed => ?_⟩
  exact inRange_isMethod.mpr (coherent.hasMethod_of_mem_instanceMethods listed)

theorem inRange_findStaticMethod? (name descriptor : String) :
    (findStaticMethod? p t name descriptor).InRange := by
  rw [findStaticMethod?, inRange_bind, value_supertypeClosure]
  refine ⟨inRange_supertypeClosure coherent inside, inRange_findSomeM? fun u above => ?_⟩
  rw [inRange_bind, value_staticMethods]
  refine ⟨inRange_staticMethods coherent (coherent.closed.supertypes inside above),
    inRange_findM? fun m listed => ?_⟩
  exact inRange_isMethod.mpr (coherent.hasMethod_of_mem_staticMethods listed)

theorem inRange_findField? (name : String) : (findField? p t name).InRange := by
  rw [findField?, inRange_bind, value_superclassChain]
  refine ⟨inRange_superclassChain coherent inside, inRange_findSomeM? fun u above => ?_⟩
  exact inRange_fieldNamed? coherent (coherent.closed.superclasses inside above) name

omit inside in
theorem inRange_methodOwnerName {m : MethodId} (inside : p.HasMethod m) :
    (methodOwnerName p m).InRange := by
  simpa [methodOwnerName, inside] using coherent.hasType_methodOwner inside

omit inside in
theorem inRange_fieldOwnerName {f : FieldId} (inside : p.HasField f) :
    (fieldOwnerName p f).InRange := by
  simpa [fieldOwnerName, inside] using coherent.hasType_fieldOwner inside

end

end Namesake.Traced
