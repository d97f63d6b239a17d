import Namesake.Proofs.UniqueNames

/-! # Well-formed programs

A program is well formed if its name index is the inverse of the names of its types, and each of its
methods and fields is listed once among all types, by the one that owns it. Validation accepts these
programs and no others (`Program.validate_eq_ok_iff`). That it need not compare all types with each
other rests on counting: an index that is right wherever it answers, and as large as there are
types, misses none.
-/

namespace Namesake.Program

/-- The members of a kind that are listed are those that are there, and each of them is listed once
among all types, by its owner. -/
structure ListsOnce {ι : Type} [DecidableEq ι] (p : Program) (members : TypeEntry → List ι)
    (here : ι → Prop) (owner : ι → TypeId) : Prop where
  /-- A listed id resolves. -/
  resolves : ∀ x ∈ p.types.flatMap members, here x
  once : ∀ x, here x → (p.types.flatMap members).count x = 1
  byOwner : ∀ x, here x → x ∈ members (p.type (owner x))

/-- The parts of a program fit together. -/
structure WellFormed (p : Program) : Prop where
  /-- Every type is indexed under its own name, and nothing else is indexed. -/
  indexed : ∀ name t, p.typeNamed? name = some t ↔ p.HasType t ∧ (p.type t).name = name
  methods : p.ListsOnce (·.methods) p.HasMethod fun m => (p.method m).owner
  fields : p.ListsOnce (·.fields) p.HasField fun f => (p.field f).owner

/-! ## Lists without repetitions -/

section

variable {ι : Type} [DecidableEq ι] {p : Program} {members : TypeEntry → List ι} {here : ι → Prop}
  {owner : ι → TypeId}

omit [DecidableEq ι] in
/-- No two types list the same member. -/
theorem eq_of_listed (apart : (p.types.flatMap members).Nodup) {t u : TypeId} {x : ι}
    (insideFirst : t.index < p.types.length) (first : x ∈ members (p.type t))
    (insideSecond : u.index < p.types.length) (second : x ∈ members (p.type u)) : t = u := by
  have entry {v : TypeId} (inside : v.index < p.types.length) : p.types[v.index] = p.type v :=
    (type_eq_of_getElem? (List.getElem?_eq_getElem inside)).2.symm
  obtain ⟨-, disjoint⟩ := List.nodup_flatMap.mp apart
  rw [List.pairwise_iff_getElem] at disjoint
  rcases Nat.lt_trichotomy t.index u.index with before | same | after
  · have disjoint : List.Disjoint (members p.types[t.index]) (members p.types[u.index]) :=
      disjoint _ _ insideFirst insideSecond before
    rw [entry insideFirst, entry insideSecond] at disjoint
    exact (disjoint first second).elim
  · exact congrArg TypeId.mk same
  · have disjoint : List.Disjoint (members p.types[u.index]) (members p.types[t.index]) :=
      disjoint _ _ insideSecond insideFirst after
    rw [entry insideFirst, entry insideSecond] at disjoint
    exact (disjoint second first).elim

/-- Listing everything once is listing without repetitions, and listing all there is. -/
theorem listsOnce_iff (known : ∀ t x, x ∈ members (p.type t) → p.HasType t) :
    p.ListsOnce members here owner ↔
      (∀ t, p.HasType t → ∀ x ∈ members (p.type t), here x ∧ owner x = t) ∧
      (p.types.flatMap members).Nodup ∧ ∀ x, here x → x ∈ p.types.flatMap members := by
  have listed {t : TypeId} {x : ι} (inside : p.HasType t) (lists : x ∈ members (p.type t)) :
      x ∈ p.types.flatMap members :=
    List.mem_flatMap.mpr ⟨_, List.mem_of_getElem? (getElem?_types inside), lists⟩
  constructor
  · rintro ⟨resolves, once, byOwner⟩
    have apart : (p.types.flatMap members).Nodup := by
      rw [List.nodup_iff_count_le_one]
      intro x
      by_cases member : x ∈ p.types.flatMap members
      · exact Nat.le_of_eq (once x (resolves x member))
      · rw [List.count_eq_zero_of_not_mem member]
        exact Nat.zero_le 1
    refine ⟨?_, apart, fun x inside => listed (known _ x (byOwner x inside)) (byOwner x inside)⟩
    intro t inside x lists
    have present := resolves x (listed inside lists)
    have owned := byOwner x present
    exact ⟨present, eq_of_listed apart (known _ x owned) owned inside lists⟩
  · rintro ⟨owned, apart, all⟩
    have byType {x : ι} (member : x ∈ p.types.flatMap members) :
        ∃ t, p.HasType t ∧ x ∈ members (p.type t) := by
      obtain ⟨entry, present, lists⟩ := List.mem_flatMap.mp member
      obtain ⟨i, found⟩ := List.mem_iff_getElem?.mp present
      obtain ⟨inside, rfl⟩ := type_eq_of_getElem? (t := ⟨i⟩) found
      exact ⟨⟨i⟩, inside, lists⟩
    refine ⟨?_, fun x inside => List.count_eq_one_of_mem apart (all x inside), ?_⟩
    · intro x member
      obtain ⟨t, inside, lists⟩ := byType member
      exact (owned t inside x lists).1
    · intro x present
      obtain ⟨t, inside, lists⟩ := byType (all x present)
      rw [(owned t inside x lists).2]
      exact lists

end

/-! ## Validation -/

/-- An index that is the inverse of the names has as many entries as there are types. -/
theorem size_byName {p : Program}
    (indexed : ∀ name t, p.typeNamed? name = some t ↔ p.HasType t ∧ (p.type t).name = name) :
    p.byName.size = p.types.length := by
  have differ := nodup_values_byName fun name t => (indexed name t).mp
  have differ' : p.typeIds.Nodup :=
    List.Nodup.map (fun _ _ same => congrArg TypeId.index same) List.nodup_range
  have same : p.byName.values.Perm p.typeIds := by
    rw [List.perm_ext_iff_of_nodup differ differ']
    intro t
    rw [SortedMap.mem_values, mem_typeIds]
    constructor
    · rintro ⟨name, found⟩
      exact ((indexed name t).mp found).1
    · intro inside
      exact ⟨(p.type t).name, (indexed _ t).mpr ⟨inside, rfl⟩⟩
  rw [← length_values_byName, ← length_typeIds, same.length_eq]

/-- **Validation accepts the well-formed programs.** -/
theorem validate_eq_ok_iff {p : Program} : p.validate = .ok () ↔ p.WellFormed := by
  have methods : p.ListsOnce (·.methods) p.HasMethod (fun m => (p.method m).owner) ↔ _ :=
    listsOnce_iff fun _ _ lists => hasType_of_listed (.inl (List.ne_nil_of_mem lists))
  have fields : p.ListsOnce (·.fields) p.HasField (fun f => (p.field f).owner) ↔ _ :=
    listsOnce_iff fun _ _ lists => hasType_of_listed (.inr (List.ne_nil_of_mem lists))
  constructor
  · intro valid
    obtain ⟨names, owned, allMethods, allFields⟩ := validate_eq_ok_iff_checks.mp valid
    obtain ⟨-, named⟩ := checkNames_eq_ok_iff.mp names
    refine ⟨?indexed, ?methods, ?fields⟩
    case indexed =>
      intro name t
      refine ⟨named name t, ?_⟩
      rintro ⟨inside, rfl⟩
      exact typeNamed?_name valid inside
    case methods => exact methods.mpr ⟨fun t inside => (owned t inside).1, allMethods⟩
    case fields => exact fields.mpr ⟨fun t inside => (owned t inside).2, allFields⟩
  · rintro ⟨indexed, onceMethods, onceFields⟩
    obtain ⟨ownedMethods, allMethods⟩ := methods.mp onceMethods
    obtain ⟨ownedFields, allFields⟩ := fields.mp onceFields
    have names : p.checkNames = .ok () :=
      checkNames_eq_ok_iff.mpr ⟨size_byName indexed, fun name t => (indexed name t).mp⟩
    have owned (t : TypeId) (inside : p.HasType t) : p.OwnsListed t (p.type t) :=
      ⟨ownedMethods t inside, ownedFields t inside⟩
    exact validate_eq_ok_iff_checks.mpr ⟨names, owned, allMethods, allFields⟩

end Namesake.Program
