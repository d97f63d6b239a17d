import Namesake.Proofs.MappingSets

/-! # Edits of mapping sets

A mapping set is only ever changed by giving a plain name to a type, a field or a method, by leaving
packages out, or by reading another set in its place. Whatever the edits are, the two maps of type
names invert each other, a name is given exactly where it is free, a refusal leaves no trace, and no
owner is kept without members (`MappingSet.afterEdits_in_step`).
-/

namespace Namesake.MappingSet

/-! ## Keys -/

/-- What a plain name is given to. -/
inductive Key where
  | type (name : String)
  | field (owner name : String)
  | method (owner name descriptor : String)
deriving DecidableEq

/-- The plain name of a key. -/
def lookup? (s : MappingSet) : Key → Option String
  | .type name => s.mapType? name
  | .field owner name => s.mapField? owner name
  | .method owner name descriptor => s.mapMethod? owner name descriptor

/-- Give a plain name to a key, unless that is refused. -/
def add? (s : MappingSet) (key : Key) (plain : String) : Option MappingSet :=
  match key with
  | .type name => s.addType? name plain
  | .field owner name => s.addField? owner name plain
  | .method owner name descriptor => s.addMethod? owner name descriptor plain

/-- Give a plain name to a key where that is possible. -/
def add (s : MappingSet) (key : Key) (plain : String) : MappingSet := (s.add? key plain).getD s

/-- The set with an entry for the owner of a member, an empty one if there was none. -/
def withOwner (s : MappingSet) : Key → MappingSet
  | .type _ => s
  | .field owner _ => { s with fields := s.fields.insert owner (s.fields.getD owner ∅) }
  | .method owner _ _ => { s with methods := s.methods.insert owner (s.methods.getD owner ∅) }

variable {s s' : MappingSet} {key : Key} {plain : String}

theorem add_type (s : MappingSet) (name plain : String) :
    s.add (.type name) plain = s.addType name plain := rfl

theorem add_field (s : MappingSet) (owner name plain : String) :
    s.add (.field owner name) plain = s.addField owner name plain := rfl

theorem add_method (s : MappingSet) (owner name descriptor plain : String) :
    s.add (.method owner name descriptor) plain = s.addMethod owner name descriptor plain := rfl

theorem eq_add_of_add? (accepted : s.add? key plain = some s') : s' = s.add key plain := by
  rw [add, accepted, Option.getD_some]

/-- A key takes a plain name exactly if it has none and, in the case of a type, no other type bears
the name. -/
theorem add?_isSome_iff : (s.add? key plain).isSome = true ↔
    s.lookup? key = none ∧ ∀ name, key = .type name → s.inverseType? plain = none := by
  cases key with
  | type name =>
      simp only [add?, addType?, lookup?, mapType?, inverseType?, ← SortedMap.contains_eq_false_iff]
      cases s.types.contains name <;> cases s.inverse.contains plain <;> simp
  | field owner name =>
      have known : s.mapField? owner name = (s.fields.getD owner ∅).get? name :=
        (get?_getD_empty s.fields owner name).symm
      simp only [add?, addField?, lookup?, known, ← SortedMap.contains_eq_false_iff]
      cases (s.fields.getD owner ∅).contains name <;> simp
  | method owner name descriptor =>
      have known : s.mapMethod? owner name descriptor =
          (s.methods.getD owner ∅).get? (name, descriptor) :=
        (get?_getD_empty s.methods owner (name, descriptor)).symm
      simp only [add?, addMethod?, lookup?, known, ← SortedMap.contains_eq_false_iff]
      cases (s.methods.getD owner ∅).contains (name, descriptor) <;> simp

/-- An owner is entered before a name is refused to its member, but then it has an entry already. -/
theorem withOwner_of_refused (refused : s.add? key plain = none) : s.withOwner key = s := by
  have entered {κ : Type} [KeyOrder κ] [DecidableEq κ] (m : SortedMap String (SortedMap κ String))
      {owner : String} {member : κ} (known : (m.getD owner ∅).contains member = true) :
      m.insert owner (m.getD owner ∅) = m := by
    apply SortedMap.insert_of_get?
    rw [SortedMap.getD] at known ⊢
    cases kept : m.get? owner with
    | none =>
        rw [kept] at known
        cases known
    | some names => rfl
  cases key with
  | type name => rfl
  | field owner name =>
      simp only [add?, addField?, ite_eq_left_iff, reduceCtorEq, imp_false, Decidable.not_not]
        at refused
      rw [withOwner, entered s.fields refused]
  | method owner name descriptor =>
      simp only [add?, addMethod?, ite_eq_left_iff, reduceCtorEq, imp_false, Decidable.not_not]
        at refused
      rw [withOwner, entered s.methods refused]

/-- A name that is taken changes the answer for its own key only. -/
theorem lookup?_add (accepted : (s.add? key plain).isSome = true) (key' : Key) :
    (s.add key plain).lookup? key' = if key' = key then some plain else s.lookup? key' := by
  obtain ⟨free, unborne⟩ := add?_isSome_iff.mp accepted
  cases key with
  | type name =>
      obtain ⟨fields, methods⟩ := members_addType s name plain
      rw [add_type]
      cases key' with
      | type name' =>
          have isFree : s.IsFree name plain := ⟨free, unborne name rfl⟩
          simp only [lookup?, mapType?_addType, isFree, true_and, Key.type.injEq, eq_comm]
      | field owner name' => simp only [lookup?, mapField?, fields, reduceCtorEq, if_false]
      | method owner name' descriptor =>
          simp only [lookup?, mapMethod?, methods, reduceCtorEq, if_false]
  | field owner name =>
      have unnamed : nestedGet? s.fields owner name = none := free
      rw [add_field, addField_eq]
      cases key' with
      | type name' => rfl
      | field owner' name' =>
          change nestedGet? (nestedAdd s.fields owner name plain) owner' name' = _
          rw [nestedGet?_nestedAdd, unnamed, Option.none_or]
          simp only [Key.field.injEq, eq_comm]
          rfl
      | method owner' name' descriptor => rfl
  | method owner name descriptor =>
      have unnamed : nestedGet? s.methods owner (name, descriptor) = none := free
      rw [add_method, addMethod_eq]
      cases key' with
      | type name' => rfl
      | field owner' name' => rfl
      | method owner' name' descriptor' =>
          change nestedGet? (nestedAdd s.methods owner (name, descriptor) plain) owner'
            (name', descriptor') = _
          rw [nestedGet?_nestedAdd, unnamed, Option.none_or]
          simp only [Key.method.injEq, Prod.mk.injEq, eq_comm]
          rfl

theorem WellKept.add (kept : s.WellKept) (key : Key) (plain : String) :
    (s.add key plain).WellKept := by
  cases key with
  | type name => exact keptByAdding.addType s name plain kept
  | field owner name => exact keptByAdding.addField s owner name plain kept
  | method owner name descriptor => exact keptByAdding.addMethod s owner name descriptor plain kept

/-- A type that takes a plain name is entered in the other direction too, and nothing else is. -/
theorem WellKept.inverseType?_add (kept : s.WellKept) (accepted : (s.add? key plain).isSome = true)
    (p o : String) : (s.add key plain).inverseType? p = some o ↔
      key = .type o ∧ p = plain ∨ s.inverseType? p = some o := by
  have answer := lookup?_add accepted (.type o)
  have free := (add?_isSome_iff.mp accepted).1
  rw [← (kept.add key plain).invertible, ← kept.invertible]
  change (s.add key plain).mapType? o = _ at answer
  rw [answer]
  by_cases same : key = .type o
  · subst same
    have unnamed : s.mapType? o = none := free
    simp [unnamed, eq_comm]
  · rw [if_neg (Ne.symm same)]
    simp [same, lookup?]

/-- **A well-kept set is empty exactly if it counts nothing.** -/
theorem WellKept.isEmpty_iff (kept : s.WellKept) :
    s.isEmpty = true ↔ s.typeCount = 0 ∧ s.fieldCount = 0 ∧ s.methodCount = 0 := by
  have types : s.types.isEmpty = true ↔ s.typeCount = 0 := by
    rw [SortedMap.isEmpty, List.isEmpty_iff, typeCount, SortedMap.size, List.length_eq_zero_iff]
  have fields : s.fields.isEmpty = true ↔ s.fieldCount = 0 :=
    kept.fields.isEmpty_iff fun owner e => (owner, e.1, e.2)
  have methods : s.methods.isEmpty = true ↔ s.methodCount = 0 :=
    kept.methods.isEmpty_iff fun owner e => (owner, e.1.1, e.1.2, e.2)
  rw [isEmpty, Bool.and_eq_true, Bool.and_eq_true, types, fields, methods, and_assoc]

/-! ## Any number of edits -/

/-- Something that can be done to a mapping set. -/
inductive Edit where
  | add (key : Key) (plain : String)
  /-- Leave out the types whose plain names start with one of some beginnings. -/
  | exclude (beginnings : List String)
  /-- Take a stored set instead. -/
  | load (stored : StoredMappings)

/-- The set an edit leaves behind. -/
def edit (s : MappingSet) : Edit → MappingSet
  | .add key plain => s.add key plain
  | .exclude beginnings => s.excludingPackages beginnings
  | .load stored => load stored

/-- The set edits lead to, from the empty one on. -/
def afterEdits (edits : List Edit) : MappingSet := edits.foldl edit ∅

theorem WellKept.edit (kept : s.WellKept) (change : Edit) : (s.edit change).WellKept := by
  cases change with
  | add key plain => exact kept.add key plain
  | exclude beginnings => exact keptByAdding.excludingPackages empty kept beginnings
  | load stored => exact wellKept_load stored

theorem WellKept.foldl_edit (kept : s.WellKept) (edits : List Edit) :
    (edits.foldl MappingSet.edit s).WellKept := by
  induction edits generalizing s with
  | nil => exact kept
  | cons change rest ih => exact ih (kept.edit change)

theorem wellKept_afterEdits (edits : List Edit) : (afterEdits edits).WellKept :=
  WellKept.empty.foldl_edit edits

/-- **Mapping sets stay in step.** After any edits:

* a type has a plain name exactly where that name finds the type;
* a name is taken exactly where the key has none and, in the case of a type, no type bears it;
* a refusal leaves the set as it was, and the owner that was entered for it had an entry before;
* a name that is taken changes the answer for its key only, and for a type the other direction;
* no owner is kept without members, so a set is empty exactly if it counts nothing. -/
theorem afterEdits_in_step (edits : List Edit) :
    let s := afterEdits edits
    (∀ name plain, s.mapType? name = some plain ↔ s.inverseType? plain = some name) ∧
    (∀ key plain, (s.add? key plain).isSome = true ↔ s.lookup? key = none ∧
      ∀ name, key = .type name → ∀ other, s.mapType? other ≠ some plain) ∧
    (∀ key plain, s.add? key plain = none → s.withOwner key = s ∧ s.add key plain = s) ∧
    (∀ key plain s', s.add? key plain = some s' →
      (∀ key', s'.lookup? key' = if key' = key then some plain else s.lookup? key') ∧
      ∀ p o, s'.inverseType? p = some o ↔
        key = .type o ∧ p = plain ∨ s.inverseType? p = some o) ∧
    (∀ owner names, s.fields.get? owner = some names → names ≠ ∅) ∧
    (∀ owner names, s.methods.get? owner = some names → names ≠ ∅) ∧
    (s.isEmpty = true ↔ s.typeCount = 0 ∧ s.fieldCount = 0 ∧ s.methodCount = 0) := by
  intro s
  have kept : s.WellKept := wellKept_afterEdits edits
  refine ⟨kept.invertible, ?_, ?_, ?_, kept.fields, kept.methods, kept.isEmpty_iff⟩
  · intro key plain
    have unborne : s.inverseType? plain = none ↔ ∀ other, s.mapType? other ≠ some plain := by
      simp only [Option.eq_none_iff_forall_ne_some, ne_eq, kept.invertible _ plain]
    rw [add?_isSome_iff, unborne]
  · intro key plain refused
    refine ⟨withOwner_of_refused refused, ?_⟩
    rw [add, refused, Option.getD_none]
  · intro key plain s' accepted
    have isSome : (s.add? key plain).isSome = true := accepted ▸ rfl
    rw [eq_add_of_add? accepted]
    exact ⟨lookup?_add isSome, kept.inverseType?_add isSome⟩

end Namesake.MappingSet
