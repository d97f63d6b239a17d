import Namesake.Proofs.Descriptors
import Namesake.Proofs.MappingEdits

/-! # Storing a mapping set and reading it again

A stored set keeps no inverse index, and a method by one text, its name and descriptor joined.
Reading enters every name as if it were given anew and cuts a method key at its first opening
parenthesis. So a set is read back whole if its two maps of type names invert each other, no owner
is without members, and its method keys come apart the way they were joined
(`MappingSet.load_dump`); sets that were read are of this kind whatever was read
(`MappingSet.stored_round_trip`).
-/

namespace Namesake.MappingSet

variable {s s' : MappingSet}

/-! ## Method keys -/

/-- A method name and descriptor that come apart again after they are joined. -/
def ComesApart (name descriptor : String) : Prop :=
  '(' ∉ name.toList ∧ descriptor.toList.head? = some '('

/-- The name and the descriptor a method key is cut into. -/
def cutKey? (key : String) : Option (String × String) :=
  (Text.splitFirst? '(' key.toList).map fun parts =>
    (String.ofList parts.1, String.ofList ('(' :: parts.2))

theorem cutKey?_eq_some_iff {key name descriptor : String} :
    cutKey? key = some (name, descriptor) ↔
      ComesApart name descriptor ∧ key = name ++ descriptor := by
  constructor
  · intro cut
    obtain ⟨⟨front, rest⟩, split, parts⟩ := Option.map_eq_some_iff.mp cut
    obtain ⟨rfl, rfl⟩ := Prod.mk.inj parts
    obtain ⟨text, free⟩ := Text.splitFirst?_eq_some split
    refine ⟨⟨by rwa [String.toList_ofList], by rw [String.toList_ofList, List.head?_cons]⟩, ?_⟩
    rw [← String.toList_inj, String.toList_append, String.toList_ofList, String.toList_ofList, text]
  · rintro ⟨⟨free, opened⟩, rfl⟩
    obtain ⟨rest, spelled⟩ := List.head?_eq_some_iff.mp opened
    rw [cutKey?, String.toList_append, spelled, Text.splitFirst?_append free, Option.map_some,
      String.ofList_toList, ← spelled, String.ofList_toList]

/-! ## What reading enters -/

/-- The fields of a stored set: owner, name and plain name. -/
def fieldRows (stored : StoredMappings) : List (String × String × String) :=
  stored.fields.toList.flatMap fun e => e.2.toList.map fun (name, plain) => (e.1, name, plain)

/-- The methods of a stored set whose keys can be cut: owner, name and descriptor, plain name. -/
def methodRows (stored : StoredMappings) : List (String × (String × String) × String) :=
  stored.methods.toList.flatMap fun e => e.2.toList.filterMap fun (key, plain) =>
    (cutKey? key).map fun parts => (e.1, parts, plain)

/-- The set with the types of a stored one, and no members. -/
def loadedTypes (stored : StoredMappings) : MappingSet :=
  stored.types.toList.foldl (fun s e => s.addType e.1 e.2) ∅

private theorem foldl_fieldRows (stored : StoredMappings) (s : MappingSet) :
    stored.fields.toList.foldl (fun s (owner, names) =>
      names.toList.foldl (fun s (name, plain) => s.addField owner name plain) s) s =
    (fieldRows stored).foldl (fun s e => s.addField e.1 e.2.1 e.2.2) s := by
  rw [fieldRows, List.foldl_flatMap]
  simp only [List.foldl_map]

private theorem foldl_methodRows (stored : StoredMappings) (s : MappingSet) :
    stored.methods.toList.foldl (fun s (owner, names) =>
      names.toList.foldl (fun s (key, plain) =>
        match Text.splitFirst? '(' key.toList with
        | some (name, rest) =>
          s.addMethod owner (String.ofList name) (String.ofList ('(' :: rest)) plain
        | none => s) s) s =
    (methodRows stored).foldl (fun s e => s.addMethod e.1 e.2.1.1 e.2.1.2 e.2.2) s := by
  rw [methodRows, List.foldl_flatMap]
  simp only [List.foldl_filterMap]
  congr 1
  funext s e
  congr 1
  funext s k
  cases cut : Text.splitFirst? '(' k.1.toList <;> simp [cutKey?, cut]

/-- Reading enters types, fields and methods, each in its own map. -/
theorem load_eq (stored : StoredMappings) :
    load stored =
      { loadedTypes stored with
        fields := (fieldRows stored).foldl (fun m e => nestedAdd m e.1 e.2.1 e.2.2) ∅
        methods := (methodRows stored).foldl (fun m e => nestedAdd m e.1 e.2.1 e.2.2) ∅ } := by
  obtain ⟨noFields, noMethods⟩ := members_foldl_addType stored.types.toList ∅
  calc load stored
      = (methodRows stored).foldl (fun s e => s.addMethod e.1 e.2.1.1 e.2.1.2 e.2.2)
          ((fieldRows stored).foldl (fun s e => s.addField e.1 e.2.1 e.2.2)
            (loadedTypes stored)) := by
        rw [← foldl_fieldRows]
        exact foldl_methodRows stored _
    _ = _ := by
        rw [foldl_addMethod_keyed, foldl_addField, loadedTypes, noFields, noMethods]
        rfl

/-! ## Looking up what was read -/

theorem mem_fieldRows {stored : StoredMappings} {owner name plain : String} :
    (owner, name, plain) ∈ fieldRows stored ↔ nestedGet? stored.fields owner name = some plain :=
  mem_nestedRows

theorem mem_methodRows {stored : StoredMappings} {owner name descriptor plain : String} :
    (owner, (name, descriptor), plain) ∈ methodRows stored ↔ ComesApart name descriptor ∧
      nestedGet? stored.methods owner (name ++ descriptor) = some plain := by
  simp only [methodRows, List.mem_flatMap, List.mem_filterMap, Option.map_eq_some_iff, Prod.exists,
    Prod.mk.injEq, cutKey?_eq_some_iff, nestedGet?, Option.bind_eq_bind, Option.bind_eq_some_iff,
    SortedMap.mem_toList]
  constructor
  · rintro ⟨_, names, kept, _, _, found, _, _, ⟨apart, rfl⟩, rfl, ⟨rfl, rfl⟩, rfl⟩
    exact ⟨apart, names, kept, found⟩
  · rintro ⟨apart, names, kept, found⟩
    exact ⟨owner, names, kept, name ++ descriptor, plain, found, name, descriptor, ⟨apart, rfl⟩,
      rfl, ⟨rfl, rfl⟩, rfl⟩

/-- A field has the name that is stored for it. -/
theorem mapField?_load (stored : StoredMappings) (owner name : String) :
    (load stored).mapField? owner name = nestedGet? stored.fields owner name := by
  apply Option.ext
  intro plain
  rw [load_eq, ← mem_fieldRows]
  apply nestedGet?_foldl_eq_some_iff
  intro owner name p p' first second
  rw [mem_fieldRows] at first second
  exact Option.some.inj (first.symm.trans second)

/-- A method has the name that is stored for it, if its key comes apart. -/
theorem mapMethod?_load_eq_some_iff {stored : StoredMappings}
    {owner name descriptor plain : String} :
    (load stored).mapMethod? owner name descriptor = some plain ↔ ComesApart name descriptor ∧
      nestedGet? stored.methods owner (name ++ descriptor) = some plain := by
  rw [load_eq, ← mem_methodRows]
  apply nestedGet?_foldl_eq_some_iff
  rintro owner ⟨name, descriptor⟩ p p' first second
  rw [mem_methodRows] at first second
  exact Option.some.inj (first.2.symm.trans second.2)

/-- The types of a set whose two directions agree keep their names when they are stored and read. -/
theorem mapType?_load {stored : StoredMappings} (invertible : s.Invertible)
    (same : stored.types = s.types) (name : String) :
    (load stored).mapType? name = s.mapType? name := by
  have loaded : (load stored).mapType? name = (loadedTypes stored).mapType? name := by
    rw [load_eq]
    rfl
  have all := invertible.mapType?_foldl_kept (fun _ => true) name
  rw [List.filter_true, if_pos rfl] at all
  rw [loaded, loadedTypes, same]
  exact all

/-! ## Back again -/

/-- Well-kept sets are determined by the names of types, fields and methods. -/
theorem WellKept.ext (kept : s.WellKept) (kept' : s'.WellKept)
    (types : ∀ name, s.mapType? name = s'.mapType? name)
    (fields : ∀ owner name, s.mapField? owner name = s'.mapField? owner name)
    (methods : ∀ owner name descriptor,
      s.mapMethod? owner name descriptor = s'.mapMethod? owner name descriptor) : s = s' := by
  have inverse : s.inverse = s'.inverse := by
    apply SortedMap.ext_get?
    intro plain
    apply Option.ext
    intro name
    change s.inverseType? plain = some name ↔ s'.inverseType? plain = some name
    rw [← kept.invertible, ← kept'.invertible, types]
  have sameTypes : s.types = s'.types := SortedMap.ext_get? types
  have sameFields : s.fields = s'.fields := kept.fields.ext kept'.fields fields
  have sameMethods : s.methods = s'.methods :=
    kept.methods.ext kept'.methods fun owner key => methods owner key.1 key.2
  cases s
  cases s'
  simp_all

theorem WellKept.ext_lookup? (kept : s.WellKept) (kept' : s'.WellKept)
    (same : ∀ key, s.lookup? key = s'.lookup? key) : s = s' :=
  kept.ext kept' (fun name => same (.type name)) (fun owner name => same (.field owner name))
    fun owner name descriptor => same (.method owner name descriptor)

/-- What a set stores for a method key that comes apart is the name of that method, if all its
method keys come apart. -/
theorem nestedGet?_dump_eq_some_iff
    (apart : ∀ owner name descriptor plain, s.mapMethod? owner name descriptor = some plain →
      ComesApart name descriptor) {owner name descriptor plain : String}
    (here : ComesApart name descriptor) :
    nestedGet? (dump s).methods owner (name ++ descriptor) = some plain ↔
      s.mapMethod? owner name descriptor = some plain := by
  have joined {names : SortedMap (String × String) String} {name' descriptor' plain' : String}
      (kept : s.methods.get? owner = some names)
      (found : names.get? (name', descriptor') = some plain')
      (same : name' ++ descriptor' = name ++ descriptor) :
      name' = name ∧ descriptor' = descriptor := by
    have here' : ComesApart name' descriptor' := by
      apply apart owner name' descriptor' plain'
      rw [mapMethod?, kept]
      exact found
    have cut := cutKey?_eq_some_iff.mpr ⟨here', same.symm⟩
    rw [cutKey?_eq_some_iff.mpr ⟨here, rfl⟩] at cut
    exact Prod.mk.inj (Option.some.inj cut).symm
  simp only [nestedGet?, dump, SortedMap.get?_mapValues, mapMethod?, Option.bind_eq_bind,
    Option.bind_eq_some_iff, Option.map_eq_some_iff]
  constructor
  · rintro ⟨_, ⟨names, kept, rfl⟩, found⟩
    obtain ⟨⟨⟨name', descriptor'⟩, plain'⟩, member, pair⟩ :=
      List.mem_map.mp (SortedMap.mem_of_ofList found)
    obtain ⟨same, rfl⟩ := Prod.mk.inj pair
    have listed := SortedMap.mem_toList.mp member
    obtain ⟨rfl, rfl⟩ := joined kept listed same
    exact ⟨names, kept, listed⟩
  · rintro ⟨names, kept, found⟩
    refine ⟨_, ⟨names, kept, rfl⟩, ?_⟩
    apply SortedMap.get?_ofList_of_mem
    · exact List.mem_map.mpr ⟨((name, descriptor), plain), SortedMap.mem_toList.mpr found, rfl⟩
    · intro v listed
      obtain ⟨⟨⟨name', descriptor'⟩, plain'⟩, member, pair⟩ := List.mem_map.mp listed
      obtain ⟨same, rfl⟩ := Prod.mk.inj pair
      have listed' := SortedMap.mem_toList.mp member
      obtain ⟨rfl, rfl⟩ := joined kept listed' same
      exact Option.some.inj (listed'.symm.trans found)

/-- **A well-kept set is read back from what it stores**, if its method keys come apart. -/
theorem load_dump (kept : s.WellKept)
    (apart : ∀ owner name descriptor plain, s.mapMethod? owner name descriptor = some plain →
      ComesApart name descriptor) : load (dump s) = s := by
  apply (wellKept_load (dump s)).ext kept
  · exact mapType?_load kept.invertible rfl
  · exact mapField?_load (dump s)
  · intro owner name descriptor
    apply Option.ext
    intro plain
    rw [mapMethod?_load_eq_some_iff]
    constructor
    · rintro ⟨here, stored⟩
      exact (nestedGet?_dump_eq_some_iff apart here).mp stored
    · intro named
      have here := apart owner name descriptor plain named
      exact ⟨here, (nestedGet?_dump_eq_some_iff apart here).mpr named⟩

/-- The set that names make when they are given one by one. -/
def named (additions : List (Key × String)) : MappingSet :=
  additions.foldl (fun s a => s.add a.1 a.2) ∅

theorem wellKept_named (additions : List (Key × String)) : (named additions).WellKept :=
  KeptByAdding.foldl (fun _ a kept => kept.add a.1 a.2) additions WellKept.empty

/-- **Storing and reading are inverse.** Whatever is read, the set that comes of it is read back
from what it stores, both directions of the type names included; and so is every set made by giving
names one by one, if no method name in it holds an opening parenthesis and every descriptor starts
with one. -/
theorem stored_round_trip :
    (∀ stored : StoredMappings, load (dump (load stored)) = load stored) ∧
    ∀ additions : List (Key × String),
      (∀ owner name descriptor plain,
        (named additions).mapMethod? owner name descriptor = some plain →
          '(' ∉ name.toList ∧ descriptor.toList.head? = some '(') →
      load (dump (named additions)) = named additions := by
  constructor
  · intro stored
    apply load_dump (wellKept_load stored)
    intro owner name descriptor plain known
    exact (mapMethod?_load_eq_some_iff.mp known).1
  · intro additions apart
    exact load_dump (wellKept_named additions) apart

/-- A type, a field and a method of it are read back from what they store. -/
theorem stored_round_trip_of_members :
    let additions : List (Key × String) :=
      [(.type "a", "net/Foo"), (.field "a" "f", "count"), (.method "a" "m" "(La;)V", "merge")]
    (∀ owner name descriptor plain,
      (named additions).mapMethod? owner name descriptor = some plain →
        '(' ∉ name.toList ∧ descriptor.toList.head? = some '(') ∧
    (named additions).mapMethod? "a" "m" "(La;)V" = some "merge" ∧
    load (dump (named additions)) = named additions := by
  intro additions
  have only : (named additions).methods =
      nestedAdd ∅ "a" ("m", "(La;)V") "merge" := by decide +kernel
  have apart : ∀ owner name descriptor plain,
      (named additions).mapMethod? owner name descriptor = some plain →
        '(' ∉ name.toList ∧ descriptor.toList.head? = some '(' := by
    intro owner name descriptor plain known
    change nestedGet? (named additions).methods owner (name, descriptor) = some plain at known
    rw [only, nestedGet?_nestedAdd] at known
    split_ifs at known with same
    · obtain ⟨-, ⟨rfl, rfl⟩⟩ := same
      decide
    · cases known
  exact ⟨apart, by decide +kernel, stored_round_trip.2 additions apart⟩

end Namesake.MappingSet
