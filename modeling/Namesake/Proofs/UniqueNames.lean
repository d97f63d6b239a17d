import Mathlib.Data.List.Perm.Subperm
import Namesake.Proofs.Lookups

/-! # Names that identify

In a valid program no two types share a name (`Program.typeNamed?_name`). Members are identified by
their owner and their name, methods by their descriptor as well, as far as no type declares two
members alike (`Program.DistinctMembers`).
-/

namespace Namesake.Program

/-- No type stands under two names. -/
theorem nodup_values_byName {p : Program}
    (named : ∀ name t, p.typeNamed? name = some t → p.HasType t ∧ (p.type t).name = name) :
    p.byName.values.Nodup := by
  rw [SortedMap.values, List.Nodup, List.pairwise_map]
  apply p.byName.sorted.imp_of_mem
  intro first second member member' ordered same
  obtain ⟨-, name⟩ := named _ _ (SortedMap.mem_toList.mp member)
  obtain ⟨-, name'⟩ := named _ _ (SortedMap.mem_toList.mp member')
  apply KeyOrder.ne_of_before ordered
  rw [← name, ← name', same]

theorem length_values_byName (p : Program) : p.byName.values.length = p.byName.size := by
  rw [SortedMap.values, List.length_map, SortedMap.size]

theorem length_typeIds (p : Program) : p.typeIds.length = p.types.length := by
  rw [typeIds, List.length_map, List.length_range]

/-- **A type is found by its name.** The index has as many entries as there are types, and no type
stands under two names. -/
theorem typeNamed?_name {p : Program} (valid : p.validate = .ok ()) {t : TypeId}
    (inside : p.HasType t) : p.typeNamed? (p.type t).name = some t := by
  obtain ⟨checked, -⟩ := validate_eq_ok_iff_checks.mp valid
  obtain ⟨sized, named⟩ := checkNames_eq_ok_iff.mp checked
  have known : p.byName.values ⊆ p.typeIds := by
    intro t member
    obtain ⟨name, found⟩ := SortedMap.mem_values.mp member
    exact mem_typeIds.mpr (named name t found).1
  have filled : p.typeIds.length ≤ p.byName.values.length := by
    rw [length_values_byName, length_typeIds]
    exact Nat.le_of_eq sized.symm
  have all : t ∈ p.byName.values := by
    have perm := (List.subperm_of_subset (nodup_values_byName named) known).perm_of_length_le filled
    exact perm.mem_iff.mpr (mem_typeIds.mpr inside)
  obtain ⟨name, found⟩ := SortedMap.mem_values.mp all
  rw [(named name t found).2]
  exact found

/-- No two types of a valid program share a name. -/
theorem eq_of_name {p : Program} (valid : p.validate = .ok ()) {t u : TypeId}
    (first : p.HasType t) (second : p.HasType u) (same : (p.type t).name = (p.type u).name) :
    t = u := by
  have found := typeNamed?_name valid first
  rw [same, typeNamed?_name valid second] at found
  exact (Option.some.inj found).symm

/-- No type declares two fields of one name, or two methods of one name and descriptor. -/
structure DistinctMembers (p : Program) : Prop where
  field : ∀ f g, p.HasField f → p.HasField g → (p.field f).owner = (p.field g).owner →
    (p.field f).name = (p.field g).name → f = g
  method : ∀ m n, p.HasMethod m → p.HasMethod n → (p.method m).owner = (p.method n).owner →
    (p.method m).name = (p.method n).name → (p.method m).descriptor = (p.method n).descriptor →
    m = n

namespace DistinctMembers

variable {p : Program} (distinct : p.DistinctMembers) (valid : p.validate = .ok ())

include distinct valid

/-- A field is known by the name of its owner and its own. -/
theorem eq_of_fieldNames {f g : FieldId} (first : p.HasField f) (second : p.HasField g)
    (owner : p.fieldOwnerName f = p.fieldOwnerName g)
    (name : (p.field f).name = (p.field g).name) : f = g := by
  have coherent := coherent_of_validate valid
  apply distinct.field f g first second _ name
  exact eq_of_name valid (coherent.hasType_fieldOwner first) (coherent.hasType_fieldOwner second)
    owner

/-- A method is known by the name of its owner, its own and its descriptor. -/
theorem eq_of_methodNames {m n : MethodId} (first : p.HasMethod m) (second : p.HasMethod n)
    (owner : p.methodOwnerName m = p.methodOwnerName n)
    (name : (p.method m).name = (p.method n).name)
    (descriptor : (p.method m).descriptor = (p.method n).descriptor) : m = n := by
  have coherent := coherent_of_validate valid
  apply distinct.method m n first second _ name descriptor
  exact eq_of_name valid (coherent.hasType_methodOwner first)
    (coherent.hasType_methodOwner second) owner

end DistinctMembers

/-- One method and one field are told apart. -/
theorem distinctMembers_single (type field : String) : (single type field).DistinctMembers where
  field f g first second _ _ := by
    have zero : f.index = 0 := Nat.lt_one_iff.mp first
    have zero' : g.index = 0 := Nat.lt_one_iff.mp second
    exact congrArg FieldId.mk (zero.trans zero'.symm)
  method m n first second _ _ _ := by
    have zero : m.index = 0 := Nat.lt_one_iff.mp first
    have zero' : n.index = 0 := Nat.lt_one_iff.mp second
    exact congrArg MethodId.mk (zero.trans zero'.symm)

end Namesake.Program
