import Mathlib.Data.Option.Basic
import Namesake.Merge.Bridges
import Namesake.Merge.Enums
import Namesake.Merge.Expansion
import Namesake.Merge.Literals
import Namesake.Merge.NestedTypes
import Namesake.Merge.Registrations
import Namesake.Proofs.SoleItems
import Namesake.Proofs.SoleOwners
import Namesake.Proofs.ValidPrograms

/-! # What lookups find

In a coherent program every lookup finds something that is part of the program: by name, along the
hierarchy, around or inside a type, among the members of a type. Keys that tell their owner find one
of the items they were made from.
-/

namespace Namesake

/-! ## Keys that tell their owner -/

/-- The sole owner of a key is one of the items that have the key. -/
theorem mem_of_soleOwners {κ ι : Type} [KeyOrder κ] [DecidableEq κ] [DecidableEq ι]
    {items : List (κ × ι)} {key : κ} {item : ι}
    (found : (soleOwners items).get? key = some item) : (key, item) ∈ items :=
  (get?_soleOwners_eq_some_iff.mp found item).mpr rfl

namespace Program

/-! ## Listed members -/

theorem mem_instanceMethods {p : Program} {t : TypeId} {m : MethodId} :
    m ∈ p.instanceMethods t ↔ m ∈ (p.type t).methods ∧ (p.method m).isStatic = false := by
  rw [instanceMethods, List.mem_filter, Bool.not_eq_true']

theorem mem_staticMethods {p : Program} {t : TypeId} {m : MethodId} :
    m ∈ p.staticMethods t ↔ m ∈ (p.type t).methods ∧ (p.method m).isStatic = true := by
  rw [staticMethods, List.mem_filter]

theorem mem_of_staticInitializer? {p : Program} {t : TypeId} {m : MethodId}
    (found : p.staticInitializer? t = some m) :
    m ∈ (p.type t).methods ∧ (p.method m).isStatic = true :=
  mem_staticMethods.mp (List.mem_of_find?_eq_some found)

theorem mem_of_loneMethod? {p : Program} {t : TypeId} {m : MethodId}
    (found : p.loneMethod? t = some m) :
    m ∈ (p.type t).methods ∧ (p.method m).isStatic = false := by
  unfold loneMethod? at found
  split at found
  · next only alone =>
    obtain rfl := Option.some.inj found
    have member : only ∈ (p.instanceMethods t).filter fun m => !(p.method m).isSynthetic := by
      rw [alone]
      exact List.mem_singleton_self only
    exact mem_instanceMethods.mp (List.mem_filter.mp member).1
  · cases found

theorem mem_of_methodLiterals {p : Program} {t : TypeId} {text : String} {m : MethodId}
    (found : (p.methodLiterals t).get? text = some m) : m ∈ (p.type t).methods := by
  have item := mem_of_soleOwners found
  rw [List.mem_flatMap] at item
  obtain ⟨m', listed, pair⟩ := item
  obtain ⟨text', -, same⟩ := List.mem_map.mp pair
  rw [← (Prod.mk.inj same).2]
  exact listed

theorem hasType_of_typeLiterals {p : Program} {text : String} {t : TypeId}
    (found : p.typeLiterals.get? text = some t) : p.HasType t := by
  have item := mem_of_soleOwners found
  rw [List.mem_flatMap] at item
  obtain ⟨t', listed, item⟩ := item
  obtain ⟨m, -, pair⟩ := List.mem_flatMap.mp item
  obtain ⟨text', -, same⟩ := List.mem_map.mp pair
  rw [← (Prod.mk.inj same).2]
  exact mem_typeIds.mp listed

theorem mem_of_namedEnums {p : Program} {t : TypeId} (member : t ∈ p.namedEnums) : p.HasType t :=
  mem_typeIds.mp (List.mem_filter.mp member).1

theorem hasType_of_mem_nestedIn {p : Program} {t nested : TypeId}
    (member : nested ∈ p.nestedIn t) : p.HasType nested :=
  mem_typeIds.mp (List.mem_filter.mp member).1

/-! ## Coherent programs -/

namespace Coherent

variable {p : Program} (coherent : p.Coherent)

include coherent

theorem hasType_of_superclass? {t u : TypeId} (found : p.superclass? t = some u) :
    p.HasType u := by
  obtain ⟨name, -, named⟩ := Option.bind_eq_some_iff.mp found
  exact (coherent.named named).1

theorem hasType_of_mem_interfaces {t u : TypeId} (member : u ∈ p.interfaces t) : p.HasType u := by
  obtain ⟨name, -, named⟩ := List.mem_filterMap.mp member
  exact (coherent.named named).1

theorem hasType_of_mem_supertypes {t u : TypeId} (member : u ∈ p.supertypes t) : p.HasType u := by
  rcases List.mem_append.mp member with superclass | interface
  · exact coherent.hasType_of_superclass? (Option.mem_toList.mp superclass)
  · exact coherent.hasType_of_mem_interfaces interface

theorem hasType_of_outerType? {t u : TypeId} (found : p.outerType? t = some u) : p.HasType u := by
  obtain ⟨name, -, named⟩ := Option.bind_eq_some_iff.mp found
  exact (coherent.named named).1

theorem hasMethod_of_mem_instanceMethods {t : TypeId} {m : MethodId}
    (member : m ∈ p.instanceMethods t) : p.HasMethod m :=
  (coherent.methodListed (mem_instanceMethods.mp member).1).1

theorem hasMethod_of_mem_staticMethods {t : TypeId} {m : MethodId}
    (member : m ∈ p.staticMethods t) : p.HasMethod m :=
  (coherent.methodListed (mem_staticMethods.mp member).1).1

theorem hasMethod_of_methodNamed? {t : TypeId} {name descriptor : String} {m : MethodId}
    (found : p.methodNamed? t name descriptor = some m) : p.HasMethod m :=
  (coherent.methodListed (List.mem_of_find?_eq_some found)).1

theorem hasField_of_fieldNamed? {t : TypeId} {name : String} {f : FieldId}
    (found : p.fieldNamed? t name = some f) : p.HasField f :=
  (coherent.fieldListed (List.mem_of_find?_eq_some found)).1

theorem hasMethod_of_findMethod? {t : TypeId} {name descriptor : String} {m : MethodId}
    (found : p.findMethod? t name descriptor = some m) : p.HasMethod m := by
  obtain ⟨u, -, first⟩ := List.exists_of_findSome?_eq_some found
  exact coherent.hasMethod_of_mem_instanceMethods (List.mem_of_find?_eq_some first)

theorem hasMethod_of_findStaticMethod? {t : TypeId} {name descriptor : String} {m : MethodId}
    (found : p.findStaticMethod? t name descriptor = some m) : p.HasMethod m := by
  obtain ⟨u, -, first⟩ := List.exists_of_findSome?_eq_some found
  exact coherent.hasMethod_of_mem_staticMethods (List.mem_of_find?_eq_some first)

theorem hasField_of_findField? {t : TypeId} {name : String} {f : FieldId}
    (found : p.findField? t name = some f) : p.HasField f := by
  obtain ⟨u, -, first⟩ := List.exists_of_findSome?_eq_some found
  exact coherent.hasField_of_fieldNamed? first

theorem hasField_of_constantsField? {t : TypeId} {f : FieldId}
    (found : p.constantsField? t = some f) : p.HasField f := by
  unfold constantsField? at found
  dsimp only at found
  split_ifs at found
  obtain ⟨initializer, -, first⟩ := Option.bind_eq_some_iff.mp found
  obtain ⟨statement, -, target⟩ := List.exists_of_findSome?_eq_some first
  split at target
  · simp only [Option.bind_eq_bind, Option.bind_eq_some_iff, Option.pure_def,
      Option.some.injEq] at target
    obtain ⟨-, -, f', named, -, -, rfl⟩ := target
    exact coherent.hasField_of_fieldNamed? named
  · cases target

theorem hasMethod_of_bridgeTarget? {t : TypeId} {bridge m : MethodId}
    (found : p.bridgeTarget? t bridge = some m) : p.HasMethod m := by
  unfold bridgeTarget? at found
  dsimp only at found
  split_ifs at found
  split at found
  · simp only [Option.bind_eq_bind, Option.bind_eq_some_iff, Option.pure_def,
      Option.some.injEq] at found
    obtain ⟨-, -, m', named, -, -, rfl⟩ := found
    exact coherent.hasMethod_of_methodNamed? named
  · cases found

theorem hasType_of_soleAnonymousSite? {m : MethodId} {t : TypeId}
    (found : p.soleAnonymousSite? m = some t) : p.HasType t := by
  unfold soleAnonymousSite? at found
  split at found
  · next only alone =>
    obtain rfl := Option.some.inj found
    have member : only ∈ p.anonymousSites m := by
      rw [alone]
      exact List.mem_singleton_self only
    obtain ⟨instruction, -, site⟩ := List.mem_filterMap.mp member
    split at site
    · simp only [Option.bind_eq_bind, Option.bind_eq_some_iff, Option.pure_def,
        Option.some.injEq] at site
      obtain ⟨name, -, t', named, -, -, rfl⟩ := site
      exact (coherent.named named).1
    · cases site
  · cases found

theorem hasField_of_mem_staticAssignments {body : List Statement} {f : FieldId}
    {value : Instruction} (member : (f, value) ∈ p.staticAssignments body) : p.HasField f := by
  obtain ⟨statement, -, assigned⟩ := List.mem_filterMap.mp member
  split at assigned
  · simp only [Option.bind_eq_bind, Option.bind_eq_some_iff, Option.pure_def,
      Option.some.injEq, Prod.mk.injEq] at assigned
    obtain ⟨t, -, f', named, -, -, rfl, -⟩ := assigned
    exact coherent.hasField_of_fieldNamed? named
  · cases assigned

theorem hasField_of_mem_registrations {body : List Statement} {r : Registration}
    (member : r ∈ registrations p body) :
    p.HasField r.field ∧ ∀ m, r.factory = some m → p.HasMethod m := by
  obtain ⟨⟨f, value⟩, assigned, registered⟩ := List.mem_filterMap.mp member
  dsimp only at registered
  split at registered
  · obtain rfl := Option.some.inj registered
    refine ⟨coherent.hasField_of_mem_staticAssignments assigned, ?_⟩
    intro m factory
    simp only [Option.bind_eq_bind, Option.bind_eq_some_iff, Option.pure_def,
      Option.some.injEq] at factory
    obtain ⟨t, -, m', named, -, -, rfl⟩ := factory
    exact coherent.hasMethod_of_methodNamed? named
  · cases registered

theorem hasField_of_keyedConstructors {body : List Statement} {key : String} {f : FieldId}
    {call : Instruction} (found : (keyedConstructors p body).get? key = some (f, call)) :
    p.HasField f := by
  obtain ⟨⟨f', value⟩, assigned, keyed⟩ := List.mem_filterMap.mp (SortedMap.mem_of_ofList found)
  dsimp only at keyed
  split at keyed
  · obtain ⟨-, rfl, -⟩ := Prod.mk.inj (Option.some.inj keyed) |>.imp id Prod.mk.inj
    exact coherent.hasField_of_mem_staticAssignments assigned
  · cases keyed

end Coherent

end Program

end Namesake
