import Namesake.Program.Lookup

/-! # Override groups

Instance methods that take the same place in virtual dispatch form a group. Types are gone through
supertypes first; a method that has no group yet starts one and becomes its archetype, and the group
takes in the overrides found below it. Where an override has a group already, that group is merged
into the new one.

A method overrides another of its name if the descriptors agree, or if the parameters agree once the
subtype's type arguments stand for the supertype's type variables. Constructors and static
initializers are never overridden.
-/

namespace Namesake

/-- Methods that take the same place, and the one the group was started with. -/
structure OverrideGroup where
  archetype : MethodId
  /-- The members are the keys. -/
  memberSet : SortedMap MethodId Unit
deriving DecidableEq, Inhabited

namespace OverrideGroup

/-- The group of one method. -/
def single (id : MethodId) : OverrideGroup := ⟨id, (∅ : SortedMap MethodId Unit).insert id ()⟩

/-- The members in order. -/
def members (g : OverrideGroup) : List MethodId := g.memberSet.keys

/-- The group with further members. -/
def extend (g : OverrideGroup) (ids : List MethodId) : OverrideGroup :=
  { g with memberSet := ids.foldl (fun set id => set.insert id ()) g.memberSet }

/-- The group without its members. -/
def emptied (g : OverrideGroup) : OverrideGroup := { g with memberSet := ∅ }

/-- The member a type declares. -/
def overrideOn? (g : OverrideGroup) (p : Program) (id : TypeId) : Option MethodId :=
  g.members.find? fun m => (p.method m).owner = id

end OverrideGroup

/-- The groups of a program's instance methods. -/
structure OverrideGroups where
  /-- Every group that was started, by number. One whose members moved to another is empty. -/
  started : List OverrideGroup
  /-- The number of the group each method is in. -/
  groupOf : SortedMap MethodId Nat
deriving DecidableEq

namespace Program

/-- All types, supertypes first as far as the hierarchy has no cycles. -/
def supertypesFirst (p : Program) : List TypeId :=
  postorder p.supertypes p.typeIds [] (p.typeIds.map .enter)

/-! ## Overrides of a method -/

/-- The type arguments a type passes to a supertype. -/
def argumentsFor? (p : Program) (sub owner : TypeId) : Option (List TypeArg) := do
  let signature ← (p.type sub).signature
  match ← signature.supertypeRef? (p.type owner).name with
  | .class _ args => some args
  | _ => none

/-- Parameter types declared on a type, as a subtype sees them: a variable gives way to the argument
the subtype passes for it. -/
def paramsSeenBy (p : Program) (sub owner : TypeId) (params : List TypeSig) : List TypeSig :=
  match p.argumentsFor? sub owner, (p.type owner).signature with
  | some args, some signature =>
    params.map fun param =>
      match param with
      | .var name =>
        let arg := (signature.typeParams.findIdx? (· = name)) >>= (args[·]?) >>= TypeArg.sig
        arg.getD param
      | _ => param
  | _, _ => params

/-- What is looked for on a type: a method with this descriptor or these parameters. -/
structure Slot where
  type : TypeId
  descriptor : String
  params : List TypeSig

/-- The slots below a method or slot declared on a type. -/
def slotsBelow (p : Program) (subtypes : SortedMap TypeId (List TypeId)) (owner : TypeId)
    (descriptor : String) (params : List TypeSig) : List Slot :=
  (subtypes.getD owner []).map fun sub => ⟨sub, descriptor, p.paramsSeenBy sub owner params⟩

/-- The method of a name that fills a slot. -/
def filling? (p : Program) (name : String) (slot : Slot) : Option MethodId :=
  (p.instanceMethods slot.type).find? fun m =>
    (p.method m).name = name &&
      ((p.method m).descriptor = slot.descriptor || (p.method m).signature.params = slot.params)

/-- The methods that fill a stack of slots and the slots below them, each type looked at once. Below
a method that fills a slot its own descriptor and parameters count. -/
def fillings (p : Program) (subtypes : SortedMap TypeId (List TypeId)) (name : String)
    (visited : List TypeId) : (stack : List Slot) → List MethodId
  | [] => []
  | slot :: stack =>
    if _h : slot.type ∈ p.typeIds ∧ slot.type ∉ visited then
      match p.filling? name slot with
      | some m =>
        m :: fillings p subtypes name (slot.type :: visited)
          (p.slotsBelow subtypes slot.type (p.method m).descriptor (p.method m).signature.params
            ++ stack)
      | none =>
        fillings p subtypes name (slot.type :: visited)
          (p.slotsBelow subtypes slot.type slot.descriptor slot.params ++ stack)
    else fillings p subtypes name visited stack
termination_by stack => ((unvisited p.typeIds visited).length, stack.length)
decreasing_by
  · exact Prod.Lex.left _ _ (unvisited_cons_lt _h.1 _h.2)
  · exact Prod.Lex.left _ _ (unvisited_cons_lt _h.1 _h.2)
  · exact Prod.Lex.right _ (by simp)

/-- The overrides of an instance method of a type, in the order they are found. -/
def overrides (p : Program) (subtypes : SortedMap TypeId (List TypeId)) (owner : TypeId)
    (id : MethodId) : List MethodId :=
  let m := p.method id
  if m.isConstructor || m.isStaticInitializer then []
  else
    fillings p subtypes m.name [owner]
      (p.slotsBelow subtypes owner m.descriptor m.signature.params)

end Program

namespace OverrideGroups

def empty : OverrideGroups := ⟨[], ∅⟩

/-- The archetypes of the groups, by number. -/
def archetypes (g : OverrideGroups) : List MethodId := g.started.map (·.archetype)

/-- Start a group with an archetype. -/
def start (g : OverrideGroups) (id : MethodId) : OverrideGroups :=
  ⟨g.started ++ [.single id], g.groupOf.insert id g.started.length⟩

/-- Put methods into a group. -/
def put (g : OverrideGroups) (group : Nat) (ids : List MethodId) : OverrideGroups :=
  ⟨g.started.modify group (·.extend ids), ids.foldl (fun map id => map.insert id group) g.groupOf⟩

/-- Move the members of a group to another. -/
def move (g : OverrideGroups) (left entered : Nat) : OverrideGroups :=
  let moved := (g.started.getD left default).members
  { g with started := g.started.modify left (·.emptied) }.put entered moved

/-- Take a method into a group, together with the group it was in. -/
def join (g : OverrideGroups) (group : Nat) (id : MethodId) : OverrideGroups :=
  match g.groupOf.get? id with
  | none => g.put group [id]
  | some current => if current = group then g else g.move current group

/-- Start the group of a method that has none, and take in its overrides. -/
def discover (p : Program) (subtypes : SortedMap TypeId (List TypeId)) (owner : TypeId)
    (g : OverrideGroups) (id : MethodId) : OverrideGroups :=
  if g.groupOf.contains id then g
  else (p.overrides subtypes owner id).foldl (·.join g.started.length) (g.start id)

/-- The groups of a program. -/
def build (p : Program) : OverrideGroups :=
  let subtypes := p.subtypes
  p.supertypesFirst.foldl (fun g t => (p.instanceMethods t).foldl (discover p subtypes t) g) empty

/-- The group a method is in. -/
def group? (g : OverrideGroups) (id : MethodId) : Option OverrideGroup :=
  (g.groupOf.get? id).map fun n => g.started.getD n default

/-- The number of methods in the group of a method; a method without group counts alone. -/
def groupSize (g : OverrideGroups) (id : MethodId) : Nat :=
  ((g.group? id).map (·.members.length)).getD 1

/-- The groups that have members, in the order they were started. -/
def groups (g : OverrideGroups) : List OverrideGroup :=
  g.started.filter fun group => !group.members.isEmpty

end OverrideGroups

end Namesake
