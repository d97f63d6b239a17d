import Namesake.MappingSet.Stored
import Namesake.Proofs.SortedMap

/-! # Laws of mapping sets

Adding a name changes the answer for one key at most, and never one there was before
(`MappingSet.Extends`). Reading a set and leaving packages out of one do nothing but add names, so
what adding keeps holds of the results (`MappingSet.KeptByAdding`): the two maps of type names, one
for each direction, agree (`MappingSet.Invertible`), and no owner is kept without members
(`MappingSet.WellKept`).
-/

namespace Namesake

/-! ## Members under their owners -/

section

variable {κ : Type} [KeyOrder κ] [DecidableEq κ]

/-- The name under an owner and a key. -/
def nestedGet? (m : SortedMap String (SortedMap κ String)) (owner : String) (key : κ) :
    Option String :=
  m.get? owner >>= (·.get? key)

/-- Give a name to an owner and a key that have none. -/
def nestedAdd (m : SortedMap String (SortedMap κ String)) (owner : String) (key : κ)
    (plain : String) : SortedMap String (SortedMap κ String) :=
  let names := m.getD owner ∅
  if names.contains key then m else m.insert owner (names.insert key plain)

omit [DecidableEq κ] in
theorem get?_getD_empty (m : SortedMap String (SortedMap κ String)) (owner : String) (key : κ) :
    (m.getD owner ∅).get? key = nestedGet? m owner key := by
  rw [SortedMap.getD, nestedGet?]
  cases m.get? owner <;> rfl

/-- The first name stays. -/
theorem nestedGet?_nestedAdd (m : SortedMap String (SortedMap κ String)) (owner owner' : String)
    (key key' : κ) (plain : String) :
    nestedGet? (nestedAdd m owner key plain) owner' key' =
      if owner = owner' ∧ key = key' then (nestedGet? m owner key).or (some plain)
      else nestedGet? m owner' key' := by
  unfold nestedAdd
  dsimp only
  by_cases known : (m.getD owner ∅).contains key = true
  · obtain ⟨former, found⟩ := SortedMap.contains_iff.mp known
    rw [get?_getD_empty] at found
    rw [if_pos known]
    split_ifs with same
    · rw [← same.1, ← same.2, found, Option.some_or]
    · rfl
  · have none_ : nestedGet? m owner key = none := by
      rw [← get?_getD_empty]
      exact SortedMap.contains_eq_false_iff.mp (Bool.not_eq_true _ ▸ known)
    rw [if_neg known, none_, Option.none_or, nestedGet?, SortedMap.get?_insert]
    by_cases owners : owner = owner'
    · subst owners
      rw [if_pos rfl]
      change SortedMap.get? _ key' = _
      rw [SortedMap.get?_insert, get?_getD_empty]
      by_cases keys : key = key'
      · rw [if_pos keys, if_pos ⟨rfl, keys⟩]
      · rw [if_neg keys, if_neg (fun same => keys same.2)]
    · rw [if_neg owners, if_neg (fun same => owners same.1), nestedGet?]

/-- **The first name wins.** After adding names one by one a key has the name it had before, or else
the first it is given. -/
theorem nestedGet?_foldl (entries : List (String × κ × String))
    (m : SortedMap String (SortedMap κ String)) (owner : String) (key : κ) :
    nestedGet? (entries.foldl (fun m e => nestedAdd m e.1 e.2.1 e.2.2) m) owner key =
      (nestedGet? m owner key).or
        ((entries.find? fun e => e.1 = owner ∧ e.2.1 = key).map (·.2.2)) := by
  induction entries generalizing m with
  | nil => rw [List.foldl_nil, List.find?_nil, Option.map_none, Option.or_none]
  | cons first rest ih =>
      rw [List.foldl_cons, ih, nestedGet?_nestedAdd]
      by_cases same : first.1 = owner ∧ first.2.1 = key
      · rw [if_pos same, List.find?_cons_of_pos (by simpa using same), ← same.1, ← same.2]
        cases nestedGet? m first.1 first.2.1 <;> rfl
      · rw [if_neg same, List.find?_cons_of_neg (by simpa using same)]

/-- Names that are given once are what is found after they are added. -/
theorem nestedGet?_foldl_eq_some_iff {entries : List (String × κ × String)}
    (once : ∀ owner key p p', (owner, key, p) ∈ entries → (owner, key, p') ∈ entries → p = p')
    {owner : String} {key : κ} {plain : String} :
    nestedGet? (entries.foldl (fun m e => nestedAdd m e.1 e.2.1 e.2.2) ∅) owner key = some plain ↔
      (owner, key, plain) ∈ entries := by
  have blank : nestedGet? (∅ : SortedMap String (SortedMap κ String)) owner key = none := rfl
  rw [nestedGet?_foldl, blank, Option.none_or, Option.map_eq_some_iff]
  constructor
  · rintro ⟨⟨owner', key', plain'⟩, found, rfl⟩
    have fits := List.find?_some found
    simp only [decide_eq_true_eq] at fits
    obtain ⟨rfl, rfl⟩ := fits
    exact List.mem_of_find?_eq_some found
  · intro member
    cases found : entries.find? fun e => e.1 = owner ∧ e.2.1 = key with
    | none => simpa using List.find?_eq_none.mp found _ member
    | some e =>
        obtain ⟨owner', key', plain'⟩ := e
        have fits := List.find?_some found
        simp only [decide_eq_true_eq] at fits
        obtain ⟨rfl, rfl⟩ := fits
        exact ⟨_, rfl, once _ _ _ _ (List.mem_of_find?_eq_some found) member⟩

/-- The names under all owners, row by row. -/
def nestedRows (m : SortedMap String (SortedMap κ String)) : List (String × κ × String) :=
  m.toList.flatMap fun e => e.2.toList.map fun row => (e.1, row.1, row.2)

omit [DecidableEq κ] in
theorem mem_nestedRows {m : SortedMap String (SortedMap κ String)} {owner : String} {key : κ}
    {plain : String} :
    (owner, key, plain) ∈ nestedRows m ↔ nestedGet? m owner key = some plain := by
  simp only [nestedRows, List.mem_flatMap, List.mem_map, Prod.exists, Prod.mk.injEq, nestedGet?,
    Option.bind_eq_bind, Option.bind_eq_some_iff, SortedMap.mem_toList]
  constructor
  · rintro ⟨_, names, kept, _, _, found, rfl, rfl, rfl⟩
    exact ⟨names, kept, found⟩
  · rintro ⟨names, kept, found⟩
    exact ⟨owner, names, kept, key, plain, found, rfl, rfl, rfl⟩

/-- Adding the rows of some owners again keeps the names under these and no others. -/
theorem nestedGet?_foldl_kept (m : SortedMap String (SortedMap κ String)) (keep : String → Bool)
    (owner : String) (key : κ) :
    nestedGet? (((nestedRows m).filter fun e => keep e.1).foldl
        (fun m e => nestedAdd m e.1 e.2.1 e.2.2) ∅) owner key =
      if keep owner then nestedGet? m owner key else none := by
  apply Option.ext
  intro plain
  rw [nestedGet?_foldl_eq_some_iff, List.mem_filter, mem_nestedRows]
  · cases keep owner <;> simp
  · intro owner key p p' first second
    have first := mem_nestedRows.mp (List.mem_filter.mp first).1
    have second := mem_nestedRows.mp (List.mem_filter.mp second).1
    exact Option.some.inj (first.symm.trans second)

/-- No owner is kept without members. -/
def Populated (m : SortedMap String (SortedMap κ String)) : Prop :=
  ∀ owner names, m.get? owner = some names → names ≠ ∅

omit [DecidableEq κ] in
theorem populated_empty : Populated (∅ : SortedMap String (SortedMap κ String)) :=
  fun _ _ found => nomatch found

omit [DecidableEq κ] in
theorem populated_nestedAdd {m : SortedMap String (SortedMap κ String)} (populated : Populated m)
    (owner : String) (key : κ) (plain : String) : Populated (nestedAdd m owner key plain) := by
  intro owner' names found
  unfold nestedAdd at found
  dsimp only at found
  split_ifs at found
  · exact populated owner' names found
  · rw [SortedMap.get?_insert] at found
    split_ifs at found
    · obtain rfl := Option.some.inj found
      intro empty
      have added := SortedMap.get?_insert_self (m.getD owner ∅) key plain
      rw [empty] at added
      cases added
    · exact populated owner' names found

namespace Populated

omit [DecidableEq κ]

variable {m m' : SortedMap String (SortedMap κ String)}

/-- An owner is kept exactly if it has a member with a name. -/
theorem get?_eq_none_iff (populated : Populated m) {owner : String} :
    m.get? owner = none ↔ ∀ key, nestedGet? m owner key = none := by
  unfold nestedGet?
  cases kept : m.get? owner with
  | none => exact ⟨fun _ _ => rfl, fun _ => rfl⟩
  | some names =>
      constructor
      · intro impossible
        cases impossible
      · intro silent
        exact absurd (SortedMap.eq_empty_iff.mpr silent) (populated owner names kept)

/-- Members under their owners are determined by their names. -/
theorem ext (populated : Populated m) (populated' : Populated m')
    (same : ∀ owner key, nestedGet? m owner key = nestedGet? m' owner key) : m = m' := by
  apply SortedMap.ext_get?
  intro owner
  cases kept : m.get? owner with
  | none =>
      have silent := populated.get?_eq_none_iff.mp kept
      simp only [same] at silent
      exact (populated'.get?_eq_none_iff.mpr silent).symm
  | some names =>
      cases kept' : m'.get? owner with
      | none =>
          have silent := populated'.get?_eq_none_iff.mp kept'
          simp only [← same] at silent
          rw [populated.get?_eq_none_iff.mpr silent] at kept
          cases kept
      | some names' =>
          congr 1
          apply SortedMap.ext_get?
          intro key
          have answers := same owner key
          simp only [nestedGet?, kept, kept'] at answers
          exact answers

/-- Without members there are no owners. -/
theorem isEmpty_iff {ρ : Type} (populated : Populated m) (row : String → κ × String → ρ) :
    m.isEmpty = true ↔ (m.toList.flatMap fun e => e.2.toList.map (row e.1)).length = 0 := by
  rw [SortedMap.isEmpty, List.isEmpty_iff, List.length_eq_zero_iff, List.flatMap_eq_nil_iff]
  constructor
  · intro none
    rw [none]
    intro e member
    cases member
  · intro bare
    apply List.eq_nil_iff_forall_not_mem.mpr
    intro e member
    have filled := populated e.1 e.2 (SortedMap.mem_toList.mp member)
    exact filled (SortedMap.ext (List.map_eq_nil_iff.mp (bare e member)))

end Populated

end

namespace MappingSet

variable {s s' s'' : MappingSet}

/-! ## Adding names -/

/-- A type can be given a plain name. -/
def IsFree (s : MappingSet) (name plain : String) : Prop :=
  s.mapType? name = none ∧ s.inverseType? plain = none

instance (s : MappingSet) (name plain : String) : Decidable (s.IsFree name plain) :=
  inferInstanceAs (Decidable (_ ∧ _))

theorem addType_of_isFree {name plain : String} (free : s.IsFree name plain) :
    s.addType name plain =
      { s with types := s.types.insert name plain, inverse := s.inverse.insert plain name } := by
  have types : s.types.contains name = false := SortedMap.contains_eq_false_iff.mpr free.1
  have inverse : s.inverse.contains plain = false := SortedMap.contains_eq_false_iff.mpr free.2
  rw [addType, addType?, types, inverse]
  rfl

theorem addType_of_not_isFree {name plain : String} (taken : ¬ s.IsFree name plain) :
    s.addType name plain = s := by
  have refused : (s.types.contains name || s.inverse.contains plain) = true := by
    by_contra open_
    rw [Bool.not_eq_true, Bool.or_eq_false_iff] at open_
    exact taken ⟨SortedMap.contains_eq_false_iff.mp open_.1,
      SortedMap.contains_eq_false_iff.mp open_.2⟩
  rw [addType, addType?, if_pos refused, Option.getD_none]

theorem mapType?_addType (s : MappingSet) (name plain x : String) :
    (s.addType name plain).mapType? x =
      if s.IsFree name plain ∧ name = x then some plain else s.mapType? x := by
  by_cases free : s.IsFree name plain
  · rw [addType_of_isFree free, mapType?, SortedMap.get?_insert]
    by_cases same : name = x
    · rw [if_pos same, if_pos ⟨free, same⟩]
    · rw [if_neg same, if_neg (fun both => same both.2), mapType?]
  · rw [addType_of_not_isFree free, if_neg (fun both => free both.1)]

theorem inverseType?_addType (s : MappingSet) (name plain p : String) :
    (s.addType name plain).inverseType? p =
      if s.IsFree name plain ∧ plain = p then some name else s.inverseType? p := by
  by_cases free : s.IsFree name plain
  · rw [addType_of_isFree free, inverseType?, SortedMap.get?_insert]
    by_cases same : plain = p
    · rw [if_pos same, if_pos ⟨free, same⟩]
    · rw [if_neg same, if_neg (fun both => same both.2), inverseType?]
  · rw [addType_of_not_isFree free, if_neg (fun both => free both.1)]

/-- Naming a type leaves members alone. -/
theorem members_addType (s : MappingSet) (name plain : String) :
    (s.addType name plain).fields = s.fields ∧ (s.addType name plain).methods = s.methods := by
  by_cases free : s.IsFree name plain
  · rw [addType_of_isFree free]
    exact ⟨rfl, rfl⟩
  · rw [addType_of_not_isFree free]
    exact ⟨rfl, rfl⟩

theorem addField_eq (s : MappingSet) (owner name plain : String) :
    s.addField owner name plain = { s with fields := nestedAdd s.fields owner name plain } := by
  rw [addField, addField?, nestedAdd]
  split_ifs <;> rfl

theorem addMethod_eq (s : MappingSet) (owner name descriptor plain : String) :
    s.addMethod owner name descriptor plain =
      { s with methods := nestedAdd s.methods owner (name, descriptor) plain } := by
  rw [addMethod, addMethod?, nestedAdd]
  split_ifs <;> rfl

/-- Naming fields one by one is naming them in the map of fields. -/
theorem foldl_addField (entries : List (String × String × String)) (s : MappingSet) :
    entries.foldl (fun s e => s.addField e.1 e.2.1 e.2.2) s =
      { s with fields := entries.foldl (fun m e => nestedAdd m e.1 e.2.1 e.2.2) s.fields } := by
  induction entries generalizing s with
  | nil => rfl
  | cons first rest ih => rw [List.foldl_cons, List.foldl_cons, ih, addField_eq]

/-- Naming methods one by one is naming them in the map of methods. -/
theorem foldl_addMethod_keyed (entries : List (String × (String × String) × String))
    (s : MappingSet) :
    entries.foldl (fun s e => s.addMethod e.1 e.2.1.1 e.2.1.2 e.2.2) s =
      { s with methods := entries.foldl (fun m e => nestedAdd m e.1 e.2.1 e.2.2) s.methods } := by
  induction entries generalizing s with
  | nil => rfl
  | cons first rest ih => rw [List.foldl_cons, List.foldl_cons, ih, addMethod_eq]

/-- The name of a method with what it is for, keyed the way methods are. -/
def methodKeyed (e : String × String × String × String) : String × (String × String) × String :=
  (e.1, (e.2.1, e.2.2.1), e.2.2.2)

theorem foldl_addMethod (entries : List (String × String × String × String)) (s : MappingSet) :
    entries.foldl (fun s e => s.addMethod e.1 e.2.1 e.2.2.1 e.2.2.2) s =
      { s with
        methods := (entries.map methodKeyed).foldl (fun m e => nestedAdd m e.1 e.2.1 e.2.2)
          s.methods } := by
  rw [← foldl_addMethod_keyed, List.foldl_map]
  rfl

/-- The methods of a set, keyed the way methods are. -/
theorem methodList_keyed (s : MappingSet) :
    s.methodList.map methodKeyed = nestedRows s.methods := by
  simp only [methodList, nestedRows, List.map_flatMap, List.map_map]
  rfl

/-! ## Names stay -/

/-- Whatever has a name in the first set has the same name in the second. -/
structure Extends (s s' : MappingSet) : Prop where
  type : ∀ {name plain}, s.mapType? name = some plain → s'.mapType? name = some plain
  field : ∀ {owner name plain}, s.mapField? owner name = some plain →
    s'.mapField? owner name = some plain
  method : ∀ {owner name descriptor plain}, s.mapMethod? owner name descriptor = some plain →
    s'.mapMethod? owner name descriptor = some plain

namespace Extends

theorem refl (s : MappingSet) : s.Extends s := ⟨id, id, id⟩

theorem trans (first : s.Extends s') (second : s'.Extends s'') : s.Extends s'' :=
  ⟨fun known => second.type (first.type known), fun known => second.field (first.field known),
    fun known => second.method (first.method known)⟩

/-- Where each step keeps the names there are, so do all steps together. -/
theorem foldl {α : Type} {step : MappingSet → α → MappingSet}
    (each : ∀ (s : MappingSet) (a : α), s.Extends (step s a)) (items : List α) (s : MappingSet) :
    s.Extends (items.foldl step s) := by
  induction items generalizing s with
  | nil => exact .refl s
  | cons first rest ih => exact (each s first).trans (ih (step s first))

end Extends

theorem extends_addType (s : MappingSet) (name plain : String) :
    s.Extends (s.addType name plain) where
  type {x p} known := by
    rw [mapType?_addType, if_neg]
    · exact known
    · rintro ⟨free, rfl⟩
      rw [free.1] at known
      cases known
  field known := by
    rw [mapField?, (members_addType s name plain).1]
    exact known
  method known := by
    rw [mapMethod?, (members_addType s name plain).2]
    exact known

theorem extends_addField (s : MappingSet) (owner name plain : String) :
    s.Extends (s.addField owner name plain) where
  type known := by
    rw [addField_eq]
    exact known
  field {owner' name' plain'} known := by
    have former : nestedGet? s.fields owner' name' = some plain' := known
    rw [addField_eq]
    change nestedGet? (nestedAdd s.fields owner name plain) owner' name' = _
    rw [nestedGet?_nestedAdd]
    split_ifs with same
    · rw [same.1, same.2, former, Option.some_or]
    · exact former
  method known := by
    rw [addField_eq]
    exact known

theorem extends_addMethod (s : MappingSet) (owner name descriptor plain : String) :
    s.Extends (s.addMethod owner name descriptor plain) where
  type known := by
    rw [addMethod_eq]
    exact known
  field known := by
    rw [addMethod_eq]
    exact known
  method {owner' name' descriptor' plain'} known := by
    have former : nestedGet? s.methods owner' (name', descriptor') = some plain' := known
    rw [addMethod_eq]
    change nestedGet? (nestedAdd s.methods owner (name, descriptor) plain) owner'
      (name', descriptor') = _
    rw [nestedGet?_nestedAdd]
    split_ifs with same
    · rw [same.1, same.2, former, Option.some_or]
    · exact former

/-! ## Naming types one by one -/

/-- A name that is free goes to a type if no entry before names the type or uses the name. -/
theorem mapType?_foldl_addType {before after : List (String × String)} {x p : String}
    (free : s.IsFree x p) (apart : ∀ e ∈ before, e.1 ≠ x ∧ e.2 ≠ p) :
    ((before ++ (x, p) :: after).foldl (fun s e => s.addType e.1 e.2) s).mapType? x = some p := by
  have still : (before.foldl (fun s e => s.addType e.1 e.2) s).IsFree x p := by
    clear after
    induction before generalizing s with
    | nil => exact free
    | cons first rest ih =>
        rw [List.forall_mem_cons] at apart
        obtain ⟨⟨otherName, otherPlain⟩, others⟩ := apart
        apply ih _ others
        constructor
        · rw [mapType?_addType, if_neg (fun both => otherName both.2)]
          exact free.1
        · rw [inverseType?_addType, if_neg (fun both => otherPlain both.2)]
          exact free.2
  rw [List.foldl_append, List.foldl_cons]
  apply (Extends.foldl (fun s e => s.extends_addType e.1 e.2) after _).type
  rw [mapType?_addType, if_pos ⟨still, rfl⟩]

/-- A type that has a name in the end had it before or was given it. -/
theorem mem_of_mapType?_foldl {entries : List (String × String)} {x p : String}
    (named : (entries.foldl (fun s e => s.addType e.1 e.2) s).mapType? x = some p) :
    s.mapType? x = some p ∨ (x, p) ∈ entries := by
  induction entries generalizing s with
  | nil => exact .inl named
  | cons first rest ih =>
      rcases ih named with before | later
      · rw [mapType?_addType] at before
        split_ifs at before with given
        · obtain rfl := Option.some.inj before
          exact .inr (List.mem_cons.mpr (.inl (Prod.ext given.2.symm rfl)))
        · exact .inl before
      · exact .inr (List.mem_cons_of_mem first later)

/-- Naming types leaves members alone. -/
theorem members_foldl_addType (entries : List (String × String)) (s : MappingSet) :
    (entries.foldl (fun s e => s.addType e.1 e.2) s).fields = s.fields ∧
      (entries.foldl (fun s e => s.addType e.1 e.2) s).methods = s.methods := by
  induction entries generalizing s with
  | nil => exact ⟨rfl, rfl⟩
  | cons first rest ih =>
      obtain ⟨fields, methods⟩ := members_addType s first.1 first.2
      obtain ⟨fields', methods'⟩ := ih (s.addType first.1 first.2)
      exact ⟨fields'.trans fields, methods'.trans methods⟩

/-! ## Sets made by adding names -/

/-- A property that adding a name keeps. -/
structure KeptByAdding (P : MappingSet → Prop) : Prop where
  addType : ∀ s name plain, P s → P (s.addType name plain)
  addField : ∀ s owner name plain, P s → P (s.addField owner name plain)
  addMethod : ∀ s owner name descriptor plain, P s → P (s.addMethod owner name descriptor plain)

namespace KeptByAdding

variable {P : MappingSet → Prop}

/-- What each step keeps, all steps together keep. -/
theorem foldl {α : Type} {step : MappingSet → α → MappingSet} (each : ∀ s a, P s → P (step s a))
    (items : List α) {s : MappingSet} (given : P s) : P (items.foldl step s) := by
  induction items generalizing s with
  | nil => exact given
  | cons first rest ih => exact ih (each s first given)

/-- What adding keeps, leaving packages out keeps. -/
theorem excludingPackages (kept : KeptByAdding P) (empty : P ∅) (given : P s)
    (beginnings : List String) : P (s.excludingPackages beginnings) := by
  unfold MappingSet.excludingPackages
  split_ifs
  · exact given
  · apply foldl fun s e => kept.addMethod s _ _ _ _
    apply foldl fun s e => kept.addField s _ _ _
    exact foldl (fun s e => kept.addType s _ _) _ empty

/-- What adding keeps holds of every set that is read. -/
theorem load (kept : KeptByAdding P) (empty : P ∅) (stored : StoredMappings) :
    P (MappingSet.load stored) := by
  unfold MappingSet.load
  apply foldl
  · intro s e given
    apply foldl _ _ given
    intro s e given
    dsimp only
    split
    · exact kept.addMethod s _ _ _ _ given
    · exact given
  apply foldl
  · intro s e given
    exact foldl (fun s e => kept.addField s _ _ _) _ given
  exact foldl (fun s e => kept.addType s _ _) _ empty

end KeptByAdding

/-! ## Both directions agree -/

/-- A type has a plain name where it is the type that bears it. -/
def Invertible (s : MappingSet) : Prop :=
  ∀ name plain, s.mapType? name = some plain ↔ s.inverseType? plain = some name

namespace Invertible

theorem empty : (∅ : MappingSet).Invertible := fun _ _ => ⟨nofun, nofun⟩

/-- No two types share a plain name. -/
theorem eq_of_mapType? (invertible : s.Invertible) {x y p : String}
    (first : s.mapType? x = some p) (second : s.mapType? y = some p) : x = y := by
  rw [invertible] at first second
  exact Option.some.inj (first.symm.trans second)

theorem addType (invertible : s.Invertible) (name plain : String) :
    (s.addType name plain).Invertible := by
  intro x p
  by_cases free : s.IsFree name plain
  · obtain ⟨unnamed, unused⟩ := free
    rw [mapType?_addType, inverseType?_addType]
    by_cases names : name = x <;> by_cases plains : plain = p
    · rw [if_pos ⟨⟨unnamed, unused⟩, names⟩, if_pos ⟨⟨unnamed, unused⟩, plains⟩, names, plains]
      exact ⟨fun _ => rfl, fun _ => rfl⟩
    · -- the name was free, so nothing bore it before
      rw [if_pos ⟨⟨unnamed, unused⟩, names⟩, if_neg (fun both => plains both.2), ← invertible,
        ← names, unnamed]
      exact ⟨fun same => absurd (Option.some.inj same) plains, nofun⟩
    · rw [if_neg (fun both => names both.2), if_pos ⟨⟨unnamed, unused⟩, plains⟩, invertible,
        ← plains, unused]
      exact ⟨nofun, fun same => absurd (Option.some.inj same) names⟩
    · rw [if_neg (fun both => names both.2), if_neg (fun both => plains both.2)]
      exact invertible x p
  · rw [addType_of_not_isFree free]
    exact invertible x p

theorem addField (invertible : s.Invertible) (owner name plain : String) :
    (s.addField owner name plain).Invertible := by
  rw [addField_eq]
  exact invertible

theorem addMethod (invertible : s.Invertible) (owner name descriptor plain : String) :
    (s.addMethod owner name descriptor plain).Invertible := by
  rw [addMethod_eq]
  exact invertible

theorem keptByAdding : KeptByAdding Invertible where
  addType _ name plain invertible := invertible.addType name plain
  addField _ owner name plain invertible := invertible.addField owner name plain
  addMethod _ owner name descriptor plain invertible :=
    invertible.addMethod owner name descriptor plain

theorem excludingPackages (invertible : s.Invertible) (beginnings : List String) :
    (s.excludingPackages beginnings).Invertible :=
  keptByAdding.excludingPackages empty invertible beginnings

/-- Naming some types of a set again, one by one, gives these their names and no others. -/
theorem mapType?_foldl_kept (invertible : s.Invertible) (keep : String → Bool) (name : String) :
    mapType? ((s.typeList.filter fun e => keep e.1).foldl (fun t e => t.addType e.1 e.2) ∅) name =
      if keep name then s.mapType? name else none := by
  apply Option.ext
  intro plain
  constructor
  · intro named
    have listed := (mem_of_mapType?_foldl named).resolve_left nofun
    obtain ⟨member, kept⟩ := List.mem_filter.mp listed
    rw [if_pos kept]
    exact SortedMap.mem_toList.mp member
  · intro named
    split_ifs at named with kept
    have listed : (name, plain) ∈ s.typeList.filter fun e => keep e.1 :=
      List.mem_filter.mpr ⟨SortedMap.mem_toList.mpr named, kept⟩
    obtain ⟨before, after, split⟩ := List.append_of_mem listed
    have ordered := s.types.sorted.filter fun e => keep e.1
    change (s.typeList.filter fun e => keep e.1).Pairwise _ at ordered
    rw [split, List.pairwise_append] at ordered
    rw [split]
    apply mapType?_foldl_addType ⟨rfl, rfl⟩
    intro e member
    have other : e.1 ≠ name := KeyOrder.ne_of_before (ordered.2.2 e member _ List.mem_cons_self)
    refine ⟨other, ?_⟩
    rintro rfl
    have relisted : e ∈ s.typeList.filter fun e => keep e.1 :=
      split ▸ List.mem_append_left _ member
    have renamed := SortedMap.mem_toList.mp (List.mem_filter.mp relisted).1
    exact other (invertible.eq_of_mapType? renamed named)

end Invertible

/-- What holds of every mapping set there is. -/
structure WellKept (s : MappingSet) : Prop where
  invertible : s.Invertible
  fields : Populated s.fields
  methods : Populated s.methods

namespace WellKept

theorem empty : (∅ : MappingSet).WellKept := ⟨Invertible.empty, populated_empty, populated_empty⟩

theorem keptByAdding : KeptByAdding WellKept where
  addType s name plain kept := by
    obtain ⟨fields, methods⟩ := members_addType s name plain
    refine ⟨kept.invertible.addType name plain, ?_, ?_⟩
    · rw [fields]
      exact kept.fields
    · rw [methods]
      exact kept.methods
  addField s owner name plain kept := by
    refine ⟨kept.invertible.addField owner name plain, ?_, ?_⟩
    · rw [addField_eq]
      exact populated_nestedAdd kept.fields owner name plain
    · rw [addField_eq]
      exact kept.methods
  addMethod s owner name descriptor plain kept := by
    refine ⟨kept.invertible.addMethod owner name descriptor plain, ?_, ?_⟩
    · rw [addMethod_eq]
      exact kept.fields
    · rw [addMethod_eq]
      exact populated_nestedAdd kept.methods owner (name, descriptor) plain

end WellKept

/-- **A set that is read is well kept.** -/
theorem wellKept_load (stored : StoredMappings) : (load stored).WellKept :=
  WellKept.keptByAdding.load WellKept.empty stored

end MappingSet

end Namesake
