import Mathlib.Data.List.Find
import Namesake.OverrideGroups
import Namesake.Proofs.Exploring
import Namesake.Proofs.Lookups

/-! # What the search for overrides finds

The search below a method finds instance methods of its name. Where the methods of the name have no
generic parameters, nothing but the parameters decides: the search finds, on every type below the
owner, the first method of the name that has them (`Program.Coherent.mem_overrides_iff`). The first
only, so a second method with the same parameters on one type, such as a bridge to a result of
another type, is never found.
-/

namespace Namesake.Program

variable {p : Program}

/-! ## Instance methods -/

/-- Whether a method is an instance method of the program. -/
def IsInstanceMethod (p : Program) (m : MethodId) : Prop :=
  p.HasMethod m ∧ (p.method m).isStatic = false

/-- Whether a method goes by the name of a constructor or a static initializer. -/
def IsInitializer (p : Program) (m : MethodId) : Prop :=
  (p.method m).name = "<init>" ∨ (p.method m).name = "<clinit>"

instance (p : Program) (m : MethodId) : Decidable (p.IsInstanceMethod m) :=
  inferInstanceAs (Decidable (_ ∧ _))

instance (p : Program) (m : MethodId) : Decidable (p.IsInitializer m) :=
  inferInstanceAs (Decidable (_ ∨ _))

theorem isInitializer_iff {m : MethodId} :
    ((p.method m).isConstructor || (p.method m).isStaticInitializer) = true ↔
      p.IsInitializer m := by
  rw [MethodEntry.isConstructor, MethodEntry.isStaticInitializer, Bool.or_eq_true,
    decide_eq_true_eq, decide_eq_true_eq, IsInitializer]

/-- A type declares the instance methods it owns. -/
theorem Coherent.mem_instanceMethods_iff (coherent : p.Coherent) {t : TypeId} {m : MethodId} :
    m ∈ p.instanceMethods t ↔ p.IsInstanceMethod m ∧ (p.method m).owner = t := by
  rw [mem_instanceMethods]
  constructor
  · rintro ⟨listed, dynamic⟩
    obtain ⟨inside, owned⟩ := coherent.methodListed listed
    exact ⟨⟨inside, dynamic⟩, owned⟩
  · rintro ⟨⟨inside, dynamic⟩, rfl⟩
    exact ⟨coherent.methodOwned inside, dynamic⟩

/-! ## Subtypes -/

/-- Whether a type names another as its superclass or as one of its interfaces. -/
def IsDirectSubtype (p : Program) (super sub : TypeId) : Prop := super ∈ p.supertypes sub

instance (p : Program) (super sub : TypeId) : Decidable (p.IsDirectSubtype super sub) :=
  inferInstanceAs (Decidable (_ ∈ _))

/-- A type that is not part of a program names no supertypes. -/
theorem IsDirectSubtype.hasType {t u : TypeId} (below : p.IsDirectSubtype t u) : p.HasType u := by
  by_contra outside
  have bare : p.supertypes u = [] := by
    rw [supertypes, superclass?, interfaces, type_eq_default outside]
    rfl
  rw [IsDirectSubtype, bare] at below
  cases below

theorem Coherent.hasType_of_isDirectSubtype (coherent : p.Coherent) {t u : TypeId}
    (below : p.IsDirectSubtype t u) : p.HasType t := by
  rcases List.mem_append.mp below with super | declared
  · exact coherent.hasType_of_superclass? (Option.mem_toList.mp super)
  · exact coherent.hasType_of_mem_interfaces declared

theorem mem_subtypesOf {t u : TypeId} : u ∈ p.subtypesOf t ↔ p.IsDirectSubtype t u := by
  rw [subtypesOf, List.mem_flatMap]
  constructor
  · rintro ⟨u', -, named⟩
    obtain ⟨t', kept, rfl⟩ := List.mem_map.mp named
    obtain ⟨below, same⟩ := List.mem_filter.mp kept
    obtain rfl := of_decide_eq_true same
    exact below
  · intro below
    refine ⟨u, mem_typeIds.mpr below.hasType, List.mem_map.mpr ⟨t, ?_, rfl⟩⟩
    exact List.mem_filter.mpr ⟨below, decide_eq_true rfl⟩

/-- The index of subtypes lists the direct subtypes of every type. -/
theorem Coherent.mem_subtypes_iff (coherent : p.Coherent) {t u : TypeId} :
    u ∈ p.subtypes.getD t [] ↔ p.IsDirectSubtype t u := by
  constructor
  · intro member
    rw [SortedMap.getD] at member
    cases found : p.subtypes.get? t with
    | none =>
        rw [found] at member
        cases member
    | some listed =>
        rw [found, Option.getD_some] at member
        obtain ⟨t', -, same⟩ :=
          List.mem_map.mp (List.mem_filter.mp (SortedMap.mem_of_ofList found)).1
        obtain ⟨rfl, rfl⟩ := Prod.mk.inj same
        exact mem_subtypesOf.mp member
  · intro below
    have listed : u ∈ p.subtypesOf t := mem_subtypesOf.mpr below
    have found : p.subtypes.get? t = some (p.subtypesOf t) := by
      apply SortedMap.get?_ofList_of_mem
      · refine List.mem_filter.mpr ⟨List.mem_map.mpr ⟨t, ?_, rfl⟩, ?_⟩
        · exact mem_typeIds.mpr (coherent.hasType_of_isDirectSubtype below)
        · rw [Bool.not_eq_true', List.isEmpty_eq_false_iff]
          exact List.ne_nil_of_mem listed
      · intro v entry
        obtain ⟨t', -, same⟩ := List.mem_map.mp (List.mem_filter.mp entry).1
        obtain ⟨rfl, rfl⟩ := Prod.mk.inj same
        rfl
    rw [SortedMap.getD, found, Option.getD_some]
    exact listed

/-! ## Methods of the name -/

theorem mem_of_filling? {name : String} {slot : Slot} {m : MethodId}
    (found : p.filling? name slot = some m) :
    m ∈ p.instanceMethods slot.type ∧ (p.method m).name = name := by
  have fills := List.find?_some found
  rw [Bool.and_eq_true, decide_eq_true_eq] at fills
  exact ⟨List.mem_of_find?_eq_some found, fills.1⟩

/-- What fills a slot, or a slot below it, is an instance method of the name. -/
theorem mem_of_mem_fillings {subtypes : SortedMap TypeId (List TypeId)} {name : String}
    {visited : List TypeId} {stack : List Slot} {m : MethodId}
    (member : m ∈ p.fillings subtypes name visited stack) :
    (∃ t, m ∈ p.instanceMethods t) ∧ (p.method m).name = name := by
  fun_induction fillings p subtypes name visited stack with
  | case1 => cases member
  | case2 visited slot stack fresh first found ih =>
      rcases List.mem_cons.mp member with rfl | later
      · obtain ⟨listed, named⟩ := mem_of_filling? found
        exact ⟨⟨slot.type, listed⟩, named⟩
      · exact ih later
  | case3 visited slot stack fresh found ih => exact ih member
  | case4 visited slot stack stale ih => exact ih member

/-- The overrides of a method are instance methods of its name. An initializer has none. -/
theorem Coherent.of_mem_overrides (coherent : p.Coherent)
    {subtypes : SortedMap TypeId (List TypeId)} {owner : TypeId} {id m : MethodId}
    (member : m ∈ p.overrides subtypes owner id) :
    p.IsInstanceMethod m ∧ (p.method m).name = (p.method id).name ∧ ¬ p.IsInitializer id := by
  unfold overrides at member
  dsimp only at member
  split_ifs at member with initializer
  · cases member
  · obtain ⟨⟨t, listed⟩, named⟩ := mem_of_mem_fillings member
    exact ⟨(coherent.mem_instanceMethods_iff.mp listed).1, named,
      fun initial => initializer (isInitializer_iff.mpr initial)⟩

/-! ## Methods without generic parameters -/

/-- A name that no generic method goes by: no parameter of a method of that name is a type variable,
and the descriptors of such methods tell their parameters. -/
structure IsPlain (p : Program) (name : String) : Prop where
  concrete : ∀ {m}, p.IsInstanceMethod m → (p.method m).name = name →
    ∀ v, TypeSig.var v ∉ (p.method m).signature.params
  spelled : ∀ {m m'}, p.IsInstanceMethod m → p.IsInstanceMethod m' → (p.method m).name = name →
    (p.method m').name = name → (p.method m).descriptor = (p.method m').descriptor →
    (p.method m).signature.params = (p.method m').signature.params

/-- The first instance method a type declares under a name and with given parameters. -/
def firstMethod? (p : Program) (name : String) (params : List TypeSig) (t : TypeId) :
    Option MethodId :=
  (p.instanceMethods t).find? fun m =>
    (p.method m).name = name && (p.method m).signature.params = params

theorem Coherent.of_firstMethod? (coherent : p.Coherent) {name : String} {params : List TypeSig}
    {t : TypeId} {m : MethodId} (found : p.firstMethod? name params t = some m) :
    p.IsInstanceMethod m ∧ (p.method m).owner = t ∧ (p.method m).name = name ∧
      (p.method m).signature.params = params := by
  obtain ⟨inside, owned⟩ := coherent.mem_instanceMethods_iff.mp (List.mem_of_find?_eq_some found)
  have fits := List.find?_some found
  rw [Bool.and_eq_true, decide_eq_true_eq, decide_eq_true_eq] at fits
  exact ⟨inside, owned, fits⟩

/-- Parameters that are no type variables look the same from every subtype. -/
theorem paramsSeenBy_of_concrete {sub owner : TypeId} {params : List TypeSig}
    (concrete : ∀ v, TypeSig.var v ∉ params) : p.paramsSeenBy sub owner params = params := by
  unfold paramsSeenBy
  split
  · next args signature _ _ =>
    conv_rhs => rw [← List.map_id params]
    apply List.map_congr_left
    intro param listed
    cases param with
    | var v => exact (concrete v listed).elim
    | primitive | «class» | array => rfl
  · rfl

/-- A slot that asks for methods with given parameters, in the words of one that has them. -/
structure Slot.Asks (p : Program) (name : String) (params : List TypeSig) (slot : Slot) :
    Prop where
  params_eq : slot.params = params
  worded : ∃ m, p.IsInstanceMethod m ∧ (p.method m).name = name ∧
    (p.method m).signature.params = params ∧ (p.method m).descriptor = slot.descriptor

section

variable {name : String} {params : List TypeSig} {subtypes : SortedMap TypeId (List TypeId)}

theorem Coherent.filling?_eq (coherent : p.Coherent) (plain : p.IsPlain name) {slot : Slot}
    (asks : slot.Asks p name params) :
    p.filling? name slot = p.firstMethod? name params slot.type := by
  obtain ⟨m, inside, named, same, worded⟩ := asks.worded
  apply List.find?_congr
  intro m' listed
  obtain ⟨inside', -⟩ := coherent.mem_instanceMethods_iff.mp listed
  rw [asks.params_eq, ← worded]
  by_cases named' : (p.method m').name = name
  · by_cases told : (p.method m').descriptor = (p.method m).descriptor
    · have same' := (plain.spelled inside' inside named' named told).trans same
      simp [told, same']
    · simp [told]
  · simp [named']

/-- The slots below a method ask for its parameters. -/
theorem IsPlain.asks_of_mem_slotsBelow (plain : p.IsPlain name) {owner : TypeId}
    {descriptor : String}
    (worded : ∃ m, p.IsInstanceMethod m ∧ (p.method m).name = name ∧
      (p.method m).signature.params = params ∧ (p.method m).descriptor = descriptor) :
    ∀ slot ∈ p.slotsBelow subtypes owner descriptor params, slot.Asks p name params := by
  intro slot member
  obtain ⟨sub, -, rfl⟩ := List.mem_map.mp member
  have concrete : ∀ v, TypeSig.var v ∉ params := by
    obtain ⟨m, inside, named, rfl, -⟩ := worded
    exact plain.concrete inside named
  exact ⟨paramsSeenBy_of_concrete concrete, worded⟩

theorem map_type_slotsBelow {owner : TypeId} {descriptor : String} :
    (p.slotsBelow subtypes owner descriptor params).map Slot.type = subtypes.getD owner [] := by
  rw [slotsBelow, List.map_map]
  exact List.map_id _

/-- Below slots that ask for the same parameters, the search goes through the types as exploring
does, and takes the first method with the parameters on each of them. -/
theorem Coherent.fillings_eq (coherent : p.Coherent) (plain : p.IsPlain name)
    {visited : List TypeId} {stack : List Slot}
    (asks : ∀ slot ∈ stack, slot.Asks p name params) :
    p.fillings subtypes name visited stack =
      (explore (subtypes.getD · []) p.typeIds visited (stack.map Slot.type)).filterMap
        (p.firstMethod? name params) := by
  fun_induction fillings p subtypes name visited stack with
  | case1 => simp [explore]
  | case2 visited slot stack fresh m found ih =>
      obtain ⟨here, waiting⟩ := List.forall_mem_cons.mp asks
      rw [coherent.filling?_eq plain here] at found
      obtain ⟨inside, -, named, same⟩ := coherent.of_firstMethod? found
      rw [same, List.map_append, map_type_slotsBelow] at ih
      rw [List.map_cons, explore, dif_pos fresh, List.filterMap_cons_some found, same]
      congr 1
      apply ih
      intro below member
      rcases List.mem_append.mp member with asked | later
      · exact plain.asks_of_mem_slotsBelow ⟨m, inside, named, same, rfl⟩ below asked
      · exact waiting below later
  | case3 visited slot stack fresh found ih =>
      obtain ⟨here, waiting⟩ := List.forall_mem_cons.mp asks
      rw [coherent.filling?_eq plain here] at found
      rw [here.params_eq, List.map_append, map_type_slotsBelow] at ih
      rw [List.map_cons, explore, dif_pos fresh, List.filterMap_cons_none found, here.params_eq]
      apply ih
      intro below member
      rcases List.mem_append.mp member with asked | later
      · exact plain.asks_of_mem_slotsBelow here.worded below asked
      · exact waiting below later
  | case4 visited slot stack stale ih =>
      rw [List.map_cons, explore, dif_neg stale]
      exact ih (List.forall_mem_cons.mp asks).2

end

/-- **Where no generic parameters are in play, the overrides of a method are the first methods with
its name and parameters** on the types below its owner. -/
theorem Coherent.mem_overrides_iff (coherent : p.Coherent) {id o : MethodId}
    (inside : p.IsInstanceMethod id) (dispatched : ¬ p.IsInitializer id)
    (plain : p.IsPlain (p.method id).name) :
    o ∈ p.overrides p.subtypes (p.method id).owner id ↔ ∃ t, t ≠ (p.method id).owner ∧
      Relation.ReflTransGen p.IsDirectSubtype (p.method id).owner t ∧
      p.firstMethod? (p.method id).name (p.method id).signature.params t = some o := by
  have follows : (fun a b => b ∈ p.subtypes.getD a []) = p.IsDirectSubtype := by
    funext a b
    exact propext coherent.mem_subtypes_iff
  have within : ∀ a b, b ∈ p.subtypes.getD a [] → b ∈ p.typeIds := by
    intro a b member
    exact mem_typeIds.mpr (coherent.mem_subtypes_iff.mp member).hasType
  have asks : ∀ slot ∈ p.slotsBelow p.subtypes (p.method id).owner (p.method id).descriptor
      (p.method id).signature.params,
      slot.Asks p (p.method id).name (p.method id).signature.params :=
    plain.asks_of_mem_slotsBelow ⟨id, inside, rfl, rfl, rfl⟩
  unfold overrides
  dsimp only
  rw [if_neg (mt isInitializer_iff.mp dispatched), coherent.fillings_eq plain asks,
    map_type_slotsBelow, List.mem_filterMap]
  simp only [mem_explore_below within, follows, and_assoc]

end Namesake.Program
