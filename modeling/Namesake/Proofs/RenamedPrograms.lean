import Mathlib.Data.List.Find
import Namesake.Proofs.Mentions
import Namesake.Proofs.UniqueNames

/-! # Lookups in a renamed program

A renaming that keeps the names of types apart, from each other and from external names, does not
change what anything leads to: each name finds the type that the old name finds in the program as
it was (`Program.IsRenaming.typeNamed?_rename`). Superclasses, interfaces and members are therefore
found where they were.
-/

namespace Namesake

/-- A view of what a list holds under a number, of the mapped list and of the list itself, where the
view makes no difference between a blank entry and its image. -/
private theorem view_getD_map {α β : Type} (view : α → β) {f : α → α} {blank : α}
    (agree : view blank = view (f blank)) (l : List α) (i : Nat) :
    view ((l.map f).getD i blank) = view (f (l.getD i blank)) := by
  rw [List.getD_eq_getElem?_getD, List.getD_eq_getElem?_getD, List.getElem?_map]
  cases l[i]? with
  | none => exact agree
  | some a => rfl

namespace Program

/-! ## Entries -/

section

variable (p : Program) (naming : String → String)

@[simp]
theorem typeIds_rename : (p.rename naming).typeIds = p.typeIds := by
  rw [typeIds, rename, List.length_map, typeIds]

@[simp]
theorem superclass_rename (t : TypeId) :
    ((p.rename naming).type t).superclass = (p.type t).superclass.map naming :=
  view_getD_map (fun t : TypeEntry => t.superclass) rfl p.types t.index

@[simp]
theorem interfaces_rename (t : TypeId) :
    ((p.rename naming).type t).interfaces = (p.type t).interfaces.map naming :=
  view_getD_map (fun t : TypeEntry => t.interfaces) rfl p.types t.index

@[simp]
theorem methods_rename (t : TypeId) :
    ((p.rename naming).type t).methods = (p.type t).methods :=
  view_getD_map (fun t : TypeEntry => t.methods) rfl p.types t.index

@[simp]
theorem fields_rename (t : TypeId) :
    ((p.rename naming).type t).fields = (p.type t).fields :=
  view_getD_map (fun t : TypeEntry => t.fields) rfl p.types t.index

@[simp]
theorem methodName_rename (m : MethodId) :
    ((p.rename naming).method m).name = (p.method m).name :=
  view_getD_map (fun m : MethodEntry => m.name) rfl p.methods m.index

@[simp]
theorem methodIsStatic_rename (m : MethodId) :
    ((p.rename naming).method m).isStatic = (p.method m).isStatic :=
  view_getD_map (fun m : MethodEntry => m.isStatic) rfl p.methods m.index

@[simp]
theorem methodDescriptor_rename (m : MethodId) :
    ((p.rename naming).method m).descriptor = Descriptor.rename naming (p.method m).descriptor :=
  view_getD_map (fun m : MethodEntry => m.descriptor) rfl p.methods m.index

@[simp]
theorem fieldName_rename (f : FieldId) : ((p.rename naming).field f).name = (p.field f).name :=
  view_getD_map (fun f : FieldEntry => f.name) rfl p.fields f.index

@[simp]
theorem fieldIsStatic_rename (f : FieldId) :
    ((p.rename naming).field f).isStatic = (p.field f).isStatic :=
  view_getD_map (fun f : FieldEntry => f.isStatic) rfl p.fields f.index

@[simp]
theorem instanceMethods_rename (t : TypeId) :
    (p.rename naming).instanceMethods t = p.instanceMethods t := by
  simp [instanceMethods]

@[simp]
theorem staticMethods_rename (t : TypeId) :
    (p.rename naming).staticMethods t = p.staticMethods t := by
  simp [staticMethods]

@[simp]
theorem fieldNamed?_rename (t : TypeId) (name : String) :
    (p.rename naming).fieldNamed? t name = p.fieldNamed? t name := by
  simp [fieldNamed?]

end

/-! ## Names -/

/-- The names that lookups follow: supertypes and the classes in the descriptors of methods. What
becomes of the names a program spells elsewhere makes no difference to any of them. -/
def linkNames (p : Program) : List String :=
  p.types.flatMap (fun t => t.superclass.toList ++ t.interfaces) ++
    p.methods.flatMap fun m => Descriptor.classNames m.descriptor

/-- The names of types in use, by lookups in a program and by code that mentions them. -/
def usedNames (p : Program) (mentions : List Mention) : List String :=
  p.linkNames ++ mentions.flatMap Mention.names

/-- A renaming of the types of a program and of code that mentions them. A name in use that stands
for no type of the program is external. -/
structure IsRenaming (p : Program) (naming : String → String) (mentions : List Mention) : Prop where
  /-- Different types get different names. -/
  distinct : ∀ {t u}, p.HasType t → p.HasType u →
    naming (p.type t).name = naming (p.type u).name → t = u
  /-- External names stay. -/
  fixed : ∀ {name}, name ∈ p.usedNames mentions → p.typeNamed? name = none → naming name = name
  /-- No type gets an external name. -/
  apart : ∀ {name t}, name ∈ p.usedNames mentions → p.typeNamed? name = none → p.HasType t →
    naming (p.type t).name ≠ name
  /-- The descriptors of methods can be read, before and after. -/
  linked : ∀ {m}, p.HasMethod m → Descriptor.Survives naming (p.method m).descriptor
  /-- So can the descriptors in the code. -/
  mentioned : ∀ {text}, text ∈ mentions.flatMap Mention.descriptors →
    Descriptor.Survives naming text

section

variable {p : Program} {mentions : List Mention} {name : String}

/-- Supertypes are in use. -/
theorem mem_usedNames_of_supertype {t : TypeId}
    (found : (p.type t).superclass = some name ∨ name ∈ (p.type t).interfaces) :
    name ∈ p.usedNames mentions := by
  apply List.mem_append_left
  apply List.mem_append_left
  cases listed : p.types[t.index]? with
  | none =>
      rw [type, List.getD_eq_getElem?_getD, listed] at found
      rcases found with found | found <;> cases found
  | some e =>
      rw [(type_eq_of_getElem? listed).2] at found
      refine List.mem_flatMap.mpr ⟨e, List.mem_of_getElem? listed, ?_⟩
      rw [List.mem_append, Option.mem_toList]
      exact found

/-- So are the classes in the descriptors of methods. -/
theorem mem_usedNames_of_method {m : MethodId} (inside : p.HasMethod m)
    (found : name ∈ Descriptor.classNames (p.method m).descriptor) :
    name ∈ p.usedNames mentions := by
  apply List.mem_append_left
  apply List.mem_append_right
  refine List.mem_flatMap.mpr ⟨p.method m, ?_, found⟩
  rw [method, List.getD_eq_getElem?_getD, List.getElem?_eq_getElem inside, Option.getD_some]
  exact List.getElem_mem inside

/-- So is what the code refers to. -/
theorem mem_usedNames_of_referent {m : Mention} (mentioned : m ∈ mentions)
    (found : name ∈ m.referents) : name ∈ p.usedNames mentions :=
  List.mem_append_right _ (List.mem_flatMap.mpr ⟨m, mentioned, List.mem_append_left _ found⟩)

/-- So are the classes in the descriptors of the code. -/
theorem mem_usedNames_of_descriptor {text : String}
    (mentioned : text ∈ mentions.flatMap Mention.descriptors)
    (found : name ∈ Descriptor.classNames text) : name ∈ p.usedNames mentions := by
  obtain ⟨m, listed, spells⟩ := List.mem_flatMap.mp mentioned
  apply List.mem_append_right
  exact List.mem_flatMap.mpr ⟨m, listed,
    List.mem_append_right _ (List.mem_flatMap.mpr ⟨text, spells, found⟩)⟩

end

/-- The name index of a renamed program holds the types under their renamed names. -/
theorem mem_byName_rename {p : Program} (valid : p.validate = .ok ()) {naming : String → String}
    {name : String} {t : TypeId} :
    (name, t) ∈ p.byName.toList.map (fun (name, t) => (naming name, t)) ↔
      p.HasType t ∧ naming (p.type t).name = name := by
  rw [List.mem_map]
  constructor
  · intro listed
    obtain ⟨⟨name, u⟩, member, same⟩ := listed
    obtain ⟨rfl, rfl⟩ := Prod.mk.inj same
    obtain ⟨inside, rfl⟩ := (coherent_of_validate valid).named (SortedMap.mem_toList.mp member)
    exact ⟨inside, rfl⟩
  · intro found
    obtain ⟨inside, rfl⟩ := found
    exact ⟨((p.type t).name, t), SortedMap.mem_toList.mpr (typeNamed?_name valid inside), rfl⟩

namespace IsRenaming

variable {p : Program} {naming : String → String} {mentions : List Mention}
  (faithful : p.IsRenaming naming mentions) (valid : p.validate = .ok ())

include faithful valid

/-- **A renamed name finds what the name found.** -/
theorem typeNamed?_rename {name : String}
    (used : name ∈ p.usedNames mentions) :
    (p.rename naming).typeNamed? (naming name) = p.typeNamed? name := by
  cases found : p.typeNamed? name with
  | some t =>
      obtain ⟨inside, rfl⟩ := (coherent_of_validate valid).named found
      apply SortedMap.get?_ofList_of_mem ((mem_byName_rename valid).mpr ⟨inside, rfl⟩)
      intro u listed
      obtain ⟨inside', same⟩ := (mem_byName_rename valid).mp listed
      exact faithful.distinct inside' inside same
  | none =>
      rw [faithful.fixed used found, ← Option.not_isSome_iff_eq_none, Option.isSome_iff_exists]
      intro found'
      obtain ⟨t, found'⟩ := found'
      obtain ⟨inside, same⟩ := (mem_byName_rename valid).mp (SortedMap.mem_of_ofList found')
      exact faithful.apart used found inside same

/-- No two names in use become one. -/
theorem injOn :
    Set.InjOn naming {name | name ∈ p.usedNames mentions} := by
  intro first used second used' same
  have found := faithful.typeNamed?_rename valid used
  rw [same, faithful.typeNamed?_rename valid used'] at found
  have coherent := coherent_of_validate valid
  cases stands : p.typeNamed? first with
  | some t =>
      rw [stands] at found
      rw [← (coherent.named stands).2, (coherent.named found).2]
  | none =>
      rw [stands] at found
      rw [← faithful.fixed used stands, same, faithful.fixed used' found]

/-! ## The hierarchy -/

theorem superclass?_rename (t : TypeId) : (p.rename naming).superclass? t = p.superclass? t := by
  rw [superclass?, superclass_rename, superclass?]
  cases found : (p.type t).superclass with
  | none => rfl
  | some name =>
      exact faithful.typeNamed?_rename valid
        (mem_usedNames_of_supertype (.inl found))

theorem interfaces_rename (t : TypeId) : (p.rename naming).interfaces t = p.interfaces t := by
  rw [interfaces, Program.interfaces_rename, List.filterMap_map, interfaces]
  apply List.filterMap_congr
  intro name listed
  exact faithful.typeNamed?_rename valid (mem_usedNames_of_supertype (.inr listed))

theorem superclassChain_rename (t : TypeId) :
    (p.rename naming).superclassChain t = p.superclassChain t := by
  simp only [superclassChain, faithful.superclass?_rename valid, typeIds_rename]

theorem supertypeClosure_rename (t : TypeId) :
    (p.rename naming).supertypeClosure t = p.supertypeClosure t := by
  simp only [supertypeClosure, faithful.superclass?_rename valid, faithful.interfaces_rename valid,
    typeIds_rename]

/-! ## Members -/

/-- A method answers to a renamed descriptor if it answers to the descriptor. -/
theorem isMethod_rename {name descriptor : String}
    (mentioned : descriptor ∈ mentions.flatMap Mention.descriptors) {m : MethodId}
    (inside : p.HasMethod m) :
    (p.rename naming).isMethod name (Descriptor.rename naming descriptor) m =
      p.isMethod name descriptor m := by
  have same : Descriptor.rename naming (p.method m).descriptor =
      Descriptor.rename naming descriptor ↔ (p.method m).descriptor = descriptor := by
    constructor
    · exact Descriptor.rename_injOn (faithful.injOn valid) (faithful.linked inside)
        (faithful.mentioned mentioned) (fun name => mem_usedNames_of_method inside)
        fun name => mem_usedNames_of_descriptor mentioned
    · exact congrArg _
  simp only [isMethod, methodName_rename, methodDescriptor_rename, same]

theorem findMethod?_rename {name descriptor : String}
    (mentioned : descriptor ∈ mentions.flatMap Mention.descriptors) (t : TypeId) :
    (p.rename naming).findMethod? t name (Descriptor.rename naming descriptor) =
      p.findMethod? t name descriptor := by
  have coherent := coherent_of_validate valid
  rw [findMethod?, faithful.superclassChain_rename valid, findMethod?]
  congr 1
  funext u
  rw [instanceMethods_rename]
  apply List.find?_congr
  intro m listed
  exact faithful.isMethod_rename valid mentioned
    (coherent.methodListed (mem_instanceMethods.mp listed).1).1

theorem findStaticMethod?_rename {name descriptor : String}
    (mentioned : descriptor ∈ mentions.flatMap Mention.descriptors) (t : TypeId) :
    (p.rename naming).findStaticMethod? t name (Descriptor.rename naming descriptor) =
      p.findStaticMethod? t name descriptor := by
  have coherent := coherent_of_validate valid
  rw [findStaticMethod?, faithful.supertypeClosure_rename valid, findStaticMethod?]
  congr 1
  funext u
  rw [staticMethods_rename]
  apply List.find?_congr
  intro m listed
  exact faithful.isMethod_rename valid mentioned
    (coherent.methodListed (mem_staticMethods.mp listed).1).1

theorem findCalled?_rename {name descriptor : String}
    (mentioned : descriptor ∈ mentions.flatMap Mention.descriptors) (isStatic : Bool) (t : TypeId) :
    (p.rename naming).findCalled? isStatic t name (Descriptor.rename naming descriptor) =
      p.findCalled? isStatic t name descriptor := by
  cases isStatic with
  | false => exact faithful.findMethod?_rename valid mentioned t
  | true => exact faithful.findStaticMethod?_rename valid mentioned t

theorem findField?_rename (t : TypeId) (name : String) :
    (p.rename naming).findField? t name = p.findField? t name := by
  simp only [findField?, faithful.superclassChain_rename valid, fieldNamed?_rename]

end IsRenaming

/-! ## The smallest program with members, renamed -/

/-- The descriptor of a method without parameters and result survives any renaming. -/
theorem survives_unit (naming : String → String) :
    Descriptor.classNames "()V" = [] ∧ Descriptor.Survives naming "()V" := by
  have void : isPrimitiveCode 'V' = true := by decide
  apply Descriptor.survives_descriptor (s := ⟨[], .primitive 'V'⟩)
  · exact ⟨by simp, void, by simp [TypeSig.classNames]⟩
  · simp [MethodSignature.classNames, TypeSig.classNames]

/-- A lone class may get any name the code does not use. -/
theorem isRenaming_single {type field fresh : String} {mentions : List Mention}
    (unused : fresh ∉ mentions.flatMap Mention.names)
    (survives : ∀ text ∈ mentions.flatMap Mention.descriptors,
      Descriptor.Survives (fun name => if name = type then fresh else name) text) :
    (single type field).IsRenaming (fun name => if name = type then fresh else name) mentions := by
  have links : (single type field).linkNames = [] := by
    simp [linkNames, single, (survives_unit id).1]
  constructor
  · intro t u inside inside' _
    have zero : t.index = 0 := Nat.lt_one_iff.mp inside
    have zero' : u.index = 0 := Nat.lt_one_iff.mp inside'
    exact congrArg TypeId.mk (zero.trans zero'.symm)
  · intro name _ external
    apply if_neg
    intro same
    rw [same] at external
    have found := typeNamed?_name (validate_single type field) (t := ⟨0⟩) Nat.one_pos
    exact nomatch external.symm.trans found
  · intro name t used _ inside
    obtain ⟨index⟩ := t
    obtain rfl := Nat.lt_one_iff.mp inside
    rw [usedNames, links, List.nil_append] at used
    change (if type = type then fresh else type) ≠ name
    rw [if_pos rfl]
    exact fun same => unused (same ▸ used)
  · intro m inside
    obtain ⟨index⟩ := m
    obtain rfl := Nat.lt_one_iff.mp inside
    exact (survives_unit _).2
  · exact fun {text} => survives text

end Program

end Namesake
