import Namesake.Proofs.StoredNames

/-! # Leaving packages out

Leaving packages out of a mapping set enters what is kept into an empty set, name by name, so an
entry could be refused on the way, and the members of a type that is left out could pass for members
of a type that never had a name. In a set that is kept in step neither happens: a key loses its name
exactly if the type it belongs to is left out (`WellKept.lookup?_excludingPackages`). So leaving out
some packages and then others is leaving out all of them at once, in whatever order they come
(`MappingSet.afterEdits_exclude`).
-/

namespace Namesake

/-- A plain name starts with one of the given beginnings. -/
def StartsIn (beginnings : List String) (plain : String) : Prop :=
  ∃ b ∈ beginnings, b.toList <+: plain.toList

namespace MappingSet

variable (s : MappingSet) (beginnings : List String)

/-- The plain name of a type starts with one of the given beginnings. -/
def LeavesOut (name : String) : Prop :=
  ∃ plain, s.mapType? name = some plain ∧ StartsIn beginnings plain

theorem isExcluded_iff {name : String} :
    s.isExcluded beginnings name = true ↔ s.LeavesOut beginnings name := by
  unfold isExcluded LeavesOut StartsIn
  cases s.mapType? name with
  | none => simp
  | some plain => simp

/-- Without beginnings nothing is left out. -/
theorem isExcluded_nil (name : String) : s.isExcluded [] name = false := by
  unfold isExcluded
  cases s.mapType? name <;> rfl

variable {s beginnings}

/-- What is left after leaving packages out, map by map. -/
theorem excludingPackages_eq (given : beginnings ≠ []) :
    let kept (name : String) : Bool := !s.isExcluded beginnings name
    let types : MappingSet :=
      (s.typeList.filter fun e => kept e.1).foldl (fun t e => t.addType e.1 e.2) ∅
    s.excludingPackages beginnings =
      { types with
        fields := ((nestedRows s.fields).filter fun e => kept e.1).foldl
          (fun m e => nestedAdd m e.1 e.2.1 e.2.2) ∅
        methods := ((nestedRows s.methods).filter fun e => kept e.1).foldl
          (fun m e => nestedAdd m e.1 e.2.1 e.2.2) ∅ } := by
  intro kept types
  obtain ⟨noFields, noMethods⟩ := members_foldl_addType (s.typeList.filter fun e => kept e.1) ∅
  have some_ : beginnings.isEmpty = false := List.isEmpty_eq_false_iff.mpr given
  have look : s.excludingPackages beginnings =
      (s.methodList.filter fun e => kept e.1).foldl
        (fun t e => t.addMethod e.1 e.2.1 e.2.2.1 e.2.2.2)
        (((nestedRows s.fields).filter fun e => kept e.1).foldl
          (fun t e => t.addField e.1 e.2.1 e.2.2) types) := by
    rw [excludingPackages, some_]
    rfl
  rw [look, foldl_addMethod, foldl_addField, noFields, noMethods, ← methodList_keyed,
    List.filter_map]
  rfl

/-- A type that keeps its name had it before, and it does not start with one of the beginnings. -/
theorem of_mapType?_excludingPackages {x p : String}
    (named : (s.excludingPackages beginnings).mapType? x = some p) :
    s.mapType? x = some p ∧ ¬ StartsIn beginnings p := by
  by_cases none_ : beginnings = []
  · subst none_
    refine ⟨named, ?_⟩
    rintro ⟨b, member, -⟩
    cases member
  rw [excludingPackages_eq none_] at named
  rcases mem_of_mapType?_foldl named with before | listed
  · have blank : (∅ : MappingSet).mapType? x = none := rfl
    rw [blank] at before
    cases before
  · have former : s.mapType? x = some p := SortedMap.mem_toList.mp (List.mem_filter.mp listed).1
    have kept : (!s.isExcluded beginnings x) = true := (List.mem_filter.mp listed).2
    refine ⟨former, ?_⟩
    intro starts
    rw [(isExcluded_iff s beginnings).mpr ⟨p, former, starts⟩] at kept
    cases kept

/-- The fields of the types that are left out lose their names, all others keep them. -/
theorem mapField?_excludingPackages (owner name : String) :
    (s.excludingPackages beginnings).mapField? owner name =
      if s.isExcluded beginnings owner then none else s.mapField? owner name := by
  by_cases none_ : beginnings = []
  · subst none_
    rw [isExcluded_nil]
    rfl
  rw [excludingPackages_eq none_]
  refine Eq.trans
    (nestedGet?_foldl_kept s.fields (fun x => !s.isExcluded beginnings x) owner name) ?_
  cases s.isExcluded beginnings owner <;> rfl

/-- The methods of the types that are left out lose their names, all others keep them. -/
theorem mapMethod?_excludingPackages (owner name descriptor : String) :
    (s.excludingPackages beginnings).mapMethod? owner name descriptor =
      if s.isExcluded beginnings owner then none else s.mapMethod? owner name descriptor := by
  by_cases none_ : beginnings = []
  · subst none_
    rw [isExcluded_nil]
    rfl
  rw [excludingPackages_eq none_]
  refine Eq.trans
    (nestedGet?_foldl_kept s.methods (fun x => !s.isExcluded beginnings x) owner
      (name, descriptor)) ?_
  cases s.isExcluded beginnings owner <;> rfl

/-- Types lose their names exactly if they are left out. -/
theorem Invertible.mapType?_excludingPackages (invertible : s.Invertible) (name : String) :
    (s.excludingPackages beginnings).mapType? name =
      if s.isExcluded beginnings name then none else s.mapType? name := by
  by_cases none_ : beginnings = []
  · subst none_
    rw [isExcluded_nil]
    rfl
  rw [excludingPackages_eq none_]
  refine Eq.trans
    (invertible.mapType?_foldl_kept (fun x => !s.isExcluded beginnings x) name) ?_
  cases s.isExcluded beginnings name <;> rfl

/-! ## What is left out -/

/-- The type a key stands for or belongs to. -/
def Key.owner : Key → String
  | .type name => name
  | .field owner _ | .method owner _ _ => owner

theorem isExcluded_append (s : MappingSet) (first second : List String) (name : String) :
    s.isExcluded (first ++ second) name =
      (s.isExcluded first name || s.isExcluded second name) := by
  unfold isExcluded
  cases s.mapType? name with
  | none => rfl
  | some plain => exact List.any_append

/-- Neither the order of the beginnings nor how often they are given matters. -/
theorem isExcluded_congr {first second : List String} (same : ∀ b, b ∈ first ↔ b ∈ second)
    (name : String) : s.isExcluded first name = s.isExcluded second name := by
  rw [Bool.eq_iff_iff, isExcluded_iff, isExcluded_iff]
  simp only [LeavesOut, StartsIn, same]

namespace WellKept

variable (kept : s.WellKept)

include kept

theorem excludingPackages (beginnings : List String) :
    (s.excludingPackages beginnings).WellKept :=
  keptByAdding.excludingPackages empty kept beginnings

/-- **A key loses its name exactly if the type it belongs to is left out.** -/
theorem lookup?_excludingPackages (key : Key) :
    (s.excludingPackages beginnings).lookup? key =
      if s.isExcluded beginnings key.owner then none else s.lookup? key := by
  cases key with
  | type name => exact kept.invertible.mapType?_excludingPackages name
  | field owner name => exact mapField?_excludingPackages owner name
  | method owner name descriptor => exact mapMethod?_excludingPackages owner name descriptor

/-- A type that has lost its name is not left out again. -/
theorem isExcluded_excludingPackages (first second : List String) (name : String) :
    (s.excludingPackages first).isExcluded second name =
      (!s.isExcluded first name && s.isExcluded second name) := by
  rw [isExcluded, kept.invertible.mapType?_excludingPackages]
  cases s.isExcluded first name <;> rfl

/-- A type is not left out if it never had a name or still has one. -/
theorem isExcluded_eq_false_iff {name : String} :
    s.isExcluded beginnings name = false ↔
      s.mapType? name = none ∨ ((s.excludingPackages beginnings).mapType? name).isSome = true := by
  rw [kept.invertible.mapType?_excludingPackages]
  cases out : s.isExcluded beginnings name with
  | true =>
      obtain ⟨plain, named, -⟩ := (isExcluded_iff s beginnings).mp out
      simp [named]
  | false => cases s.mapType? name <;> simp

/-- Beginnings that are the same up to order and repetition leave the same. -/
theorem excludingPackages_congr {first second : List String}
    (same : ∀ b, b ∈ first ↔ b ∈ second) :
    s.excludingPackages first = s.excludingPackages second := by
  apply (kept.excludingPackages first).ext_lookup? (kept.excludingPackages second)
  intro key
  rw [kept.lookup?_excludingPackages, kept.lookup?_excludingPackages, isExcluded_congr same]

/-- **Leaving packages out twice is leaving them out together.** -/
theorem excludingPackages_append (first second : List String) :
    (s.excludingPackages first).excludingPackages second =
      s.excludingPackages (first ++ second) := by
  have rest := kept.excludingPackages first
  apply (rest.excludingPackages second).ext_lookup? (kept.excludingPackages (first ++ second))
  intro key
  rw [rest.lookup?_excludingPackages, kept.lookup?_excludingPackages,
    kept.lookup?_excludingPackages, kept.isExcluded_excludingPackages, isExcluded_append]
  cases s.isExcluded first key.owner <;> cases s.isExcluded second key.owner <;> rfl

/-- Types keep their names, and can be found by them, where these start with no beginning. -/
theorem mapType?_excludingPackages_eq_some_iff {name plain : String} :
    (s.excludingPackages beginnings).mapType? name = some plain ↔
      s.mapType? name = some plain ∧ ¬ StartsIn beginnings plain := by
  refine ⟨of_mapType?_excludingPackages, ?_⟩
  rintro ⟨named, apart⟩
  have stays : s.isExcluded beginnings name = false := by
    rw [← Bool.not_eq_true, isExcluded_iff]
    rintro ⟨plain', named', starts⟩
    obtain rfl := Option.some.inj (named.symm.trans named')
    exact apart starts
  rw [kept.invertible.mapType?_excludingPackages, stays]
  exact named

/-- Members keep their names where their owner never had one or keeps its own. -/
theorem lookup?_excludingPackages_eq_some_iff (key : Key) {plain : String} :
    (s.excludingPackages beginnings).lookup? key = some plain ↔ s.lookup? key = some plain ∧
      (s.mapType? key.owner = none ∨
        ((s.excludingPackages beginnings).mapType? key.owner).isSome = true) := by
  rw [kept.lookup?_excludingPackages, ← kept.isExcluded_eq_false_iff]
  cases s.isExcluded beginnings key.owner <;> simp

end WellKept

/-- **Filtering a mapping set.** After any edits, with packages left out of the set,

* exactly the types remain whose plain names start with none of the beginnings, and they are found
  by these names;
* exactly the members remain whose owner had no plain name, or still has it;
* leaving out further packages comes to the same as leaving out all of them at once, so doing it
  twice changes nothing more, and the order does not matter. -/
theorem afterEdits_exclude (edits : List Edit) (first second : List String) :
    let s := afterEdits edits
    let rest := s.excludingPackages first
    (∀ name plain, rest.mapType? name = some plain ↔
      s.mapType? name = some plain ∧ ¬ StartsIn first plain) ∧
    (∀ name plain, rest.inverseType? plain = some name ↔
      s.inverseType? plain = some name ∧ ¬ StartsIn first plain) ∧
    (∀ owner name plain, rest.mapField? owner name = some plain ↔
      s.mapField? owner name = some plain ∧
        (s.mapType? owner = none ∨ (rest.mapType? owner).isSome = true)) ∧
    (∀ owner name descriptor plain, rest.mapMethod? owner name descriptor = some plain ↔
      s.mapMethod? owner name descriptor = some plain ∧
        (s.mapType? owner = none ∨ (rest.mapType? owner).isSome = true)) ∧
    rest.excludingPackages second = s.excludingPackages (first ++ second) ∧
    rest.excludingPackages first = rest ∧
    rest.excludingPackages second = (s.excludingPackages second).excludingPackages first := by
  intro s rest
  have kept : s.WellKept := wellKept_afterEdits edits
  have types {name plain : String} : rest.mapType? name = some plain ↔ _ :=
    kept.mapType?_excludingPackages_eq_some_iff
  have composed := kept.excludingPackages_append first
  refine ⟨fun _ _ => types, ?inverse, ?fields, ?methods, composed second, ?again, ?order⟩
  case inverse =>
    intro name plain
    rw [← (kept.excludingPackages first).invertible, ← kept.invertible]
    exact types
  case fields =>
    intro owner name plain
    exact kept.lookup?_excludingPackages_eq_some_iff (.field owner name)
  case methods =>
    intro owner name descriptor plain
    exact kept.lookup?_excludingPackages_eq_some_iff (.method owner name descriptor)
  case again =>
    rw [composed first]
    apply kept.excludingPackages_congr
    intro b
    rw [List.mem_append, or_self]
  case order =>
    rw [composed second, kept.excludingPackages_append second first]
    apply kept.excludingPackages_congr
    intro b
    rw [List.mem_append, List.mem_append, or_comm]

end MappingSet

end Namesake
