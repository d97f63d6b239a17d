import Mathlib.Data.List.Nodup
import Namesake.Program.Lookup
import Namesake.Program.Validate
import Namesake.Proofs.SortedMap

/-! # What validation establishes

The check of the names, the check of the members each type lists, and the search for members that
are listed nowhere are each described by what they are passed by
(`Program.validate_eq_ok_iff_checks` puts them together).

A program that passes validation is coherent: a name finds a type of that name, a listed member
exists and is owned by the type that lists it, and every member that exists is listed by its owner
(`Program.coherent_of_validate`). Whoever follows a list of members or an owner in a coherent
program therefore stays inside it.
-/

namespace Namesake

/-- Two steps succeed if the first does and the second does with what the first gives. -/
theorem bind_eq_ok_iff {ε α β : Type} {first : Except ε α} {second : α → Except ε β} {b : β} :
    (first >>= second) = .ok b ↔ ∃ a, first = .ok a ∧ second a = .ok b := by
  cases first with
  | error e =>
      constructor
      · intro failed
        cases failed
      · rintro ⟨a, failed, -⟩
        cases failed
  | ok a =>
      constructor
      · intro done
        exact ⟨a, rfl, done⟩
      · rintro ⟨a', same, done⟩
        cases same
        exact done

/-- Going through a list succeeds if every step does. -/
theorem forM_eq_ok_iff {ε α : Type} {l : List α} {f : α → Except ε Unit} :
    l.forM f = .ok () ↔ ∀ a ∈ l, f a = .ok () := by
  induction l with
  | nil => exact ⟨fun _ _ member => (nomatch member), fun _ => rfl⟩
  | cons a rest ih =>
      change (f a >>= fun _ => rest.forM f) = .ok () ↔ _
      rw [List.forall_mem_cons, bind_eq_ok_iff, ← ih]
      constructor
      · rintro ⟨⟨⟩, first, later⟩
        exact ⟨first, later⟩
      · rintro ⟨first, later⟩
        exact ⟨(), first, later⟩

namespace Program

/-- Whether a type is part of the program. -/
def HasType (p : Program) (t : TypeId) : Prop := t.index < p.types.length

/-- Whether a method is part of the program. -/
def HasMethod (p : Program) (m : MethodId) : Prop := m.index < p.methods.length

/-- Whether a field is part of the program. -/
def HasField (p : Program) (f : FieldId) : Prop := f.index < p.fields.length

instance (p : Program) (t : TypeId) : Decidable (p.HasType t) := Nat.decLt _ _

instance (p : Program) (m : MethodId) : Decidable (p.HasMethod m) := Nat.decLt _ _

instance (p : Program) (f : FieldId) : Decidable (p.HasField f) := Nat.decLt _ _

/-- The parts of a program agree. -/
structure Coherent (p : Program) : Prop where
  /-- A name finds a type of that name. -/
  named : ∀ {name t}, p.typeNamed? name = some t → p.HasType t ∧ (p.type t).name = name
  /-- A listed method exists and is owned by the type that lists it. -/
  methodListed : ∀ {t m}, m ∈ (p.type t).methods → p.HasMethod m ∧ (p.method m).owner = t
  /-- A listed field exists and is owned by the type that lists it. -/
  fieldListed : ∀ {t f}, f ∈ (p.type t).fields → p.HasField f ∧ (p.field f).owner = t
  /-- A method is listed by its owner. -/
  methodOwned : ∀ {m}, p.HasMethod m → m ∈ (p.type (p.method m).owner).methods
  /-- A field is listed by its owner. -/
  fieldOwned : ∀ {f}, p.HasField f → f ∈ (p.type (p.field f).owner).fields

theorem type_eq_of_getElem? {p : Program} {t : TypeId} {entry : TypeEntry}
    (found : p.types[t.index]? = some entry) : p.HasType t ∧ p.type t = entry := by
  obtain ⟨inside, rfl⟩ := List.getElem?_eq_some_iff.mp found
  refine ⟨inside, ?_⟩
  rw [type, List.getD_eq_getElem?_getD, found, Option.getD_some]

theorem method_eq_of_getElem? {p : Program} {m : MethodId} {entry : MethodEntry}
    (found : p.methods[m.index]? = some entry) : p.HasMethod m ∧ p.method m = entry := by
  obtain ⟨inside, rfl⟩ := List.getElem?_eq_some_iff.mp found
  refine ⟨inside, ?_⟩
  rw [method, List.getD_eq_getElem?_getD, found, Option.getD_some]

theorem field_eq_of_getElem? {p : Program} {f : FieldId} {entry : FieldEntry}
    (found : p.fields[f.index]? = some entry) : p.HasField f ∧ p.field f = entry := by
  obtain ⟨inside, rfl⟩ := List.getElem?_eq_some_iff.mp found
  refine ⟨inside, ?_⟩
  rw [field, List.getD_eq_getElem?_getD, found, Option.getD_some]

/-- A number outside the program stands for a blank type. -/
theorem type_eq_default {p : Program} {t : TypeId} (outside : ¬ p.HasType t) :
    p.type t = default := by
  rw [type, List.getD_eq_getElem?_getD, List.getElem?_eq_none (Nat.le_of_not_lt outside),
    Option.getD_none]

/-- A type outside the program lists no members. -/
theorem hasType_of_listed {p : Program} {t : TypeId}
    (lists : (p.type t).methods ≠ [] ∨ (p.type t).fields ≠ []) : p.HasType t := by
  by_contra outside
  rw [type_eq_default outside] at lists
  rcases lists with lists | lists <;> exact lists rfl

/-- The owner of a method is part of the program. -/
theorem Coherent.hasType_methodOwner {p : Program} (coherent : p.Coherent) {m : MethodId}
    (inside : p.HasMethod m) : p.HasType (p.method m).owner :=
  hasType_of_listed (.inl (List.ne_nil_of_mem (coherent.methodOwned inside)))

/-- The owner of a field is part of the program. -/
theorem Coherent.hasType_fieldOwner {p : Program} (coherent : p.Coherent) {f : FieldId}
    (inside : p.HasField f) : p.HasType (p.field f).owner :=
  hasType_of_listed (.inr (List.ne_nil_of_mem (coherent.fieldOwned inside)))

/-! ## Ids -/

theorem mem_typeIds {p : Program} {t : TypeId} : t ∈ p.typeIds ↔ p.HasType t := by
  rw [typeIds, List.mem_map]
  constructor
  · rintro ⟨i, member, rfl⟩
    exact List.mem_range.mp member
  · intro inside
    exact ⟨t.index, List.mem_range.mpr inside, rfl⟩

theorem mem_methodIds {p : Program} {m : MethodId} : m ∈ p.methodIds ↔ p.HasMethod m := by
  rw [methodIds, List.mem_map]
  constructor
  · rintro ⟨i, member, rfl⟩
    exact List.mem_range.mp member
  · intro inside
    exact ⟨m.index, List.mem_range.mpr inside, rfl⟩

theorem mem_fieldIds {p : Program} {f : FieldId} : f ∈ p.fieldIds ↔ p.HasField f := by
  rw [fieldIds, List.mem_map]
  constructor
  · rintro ⟨i, member, rfl⟩
    exact List.mem_range.mp member
  · intro inside
    exact ⟨f.index, List.mem_range.mpr inside, rfl⟩

theorem getElem?_types {p : Program} {t : TypeId} (inside : p.HasType t) :
    p.types[t.index]? = some (p.type t) := by
  rw [type, List.getD_eq_getElem?_getD, List.getElem?_eq_getElem inside, Option.getD_some]

/-! ## The checks -/

/-- The name index passes if it has as many entries as there are types, and a name in it finds a
type of that name. -/
theorem checkNames_eq_ok_iff {p : Program} : p.checkNames = .ok () ↔
    p.byName.size = p.types.length ∧
      ∀ name t, p.typeNamed? name = some t → p.HasType t ∧ (p.type t).name = name := by
  unfold checkNames
  split_ifs with sized
  · exact ⟨nofun, fun both => absurd both.1 sized⟩
  rw [forM_eq_ok_iff, Prod.forall]
  simp only [SortedMap.mem_toList]
  refine (and_iff_right (not_not.mp sized)).symm.trans (and_congr_right fun _ => ?_)
  refine forall_congr' fun name => forall_congr' fun t => imp_congr_right fun _ => ?_
  cases listed : p.types[t.index]? with
  | none =>
      have outside : ¬ p.HasType t := Nat.not_lt.mpr (List.getElem?_eq_none_iff.mp listed)
      exact ⟨nofun, fun both => absurd both.1 outside⟩
  | some entry =>
      obtain ⟨inside, rfl⟩ := type_eq_of_getElem? listed
      dsimp only
      split_ifs with different
      · exact ⟨nofun, fun both => absurd both.2 different⟩
      · exact ⟨fun _ => ⟨inside, not_not.mp different⟩, fun _ => rfl⟩

/-- The members met by now are those met before with the listed ones on top, latest first, and no
member is met twice. -/
def Met {ι : Type} (seen listed met : List ι) : Prop := met.Nodup ∧ met = listed.reverse ++ seen

theorem met_append_iff {ι : Type} {seen first second met : List ι} :
    Met seen (first ++ second) met ↔
      ∃ between, Met seen first between ∧ Met between second met := by
  constructor
  · rintro ⟨apart, rfl⟩
    rw [List.reverse_append, List.append_assoc] at apart ⊢
    exact ⟨_, ⟨apart.sublist (List.sublist_append_right ..), rfl⟩, apart, rfl⟩
  · rintro ⟨-, ⟨-, rfl⟩, apart, rfl⟩
    rw [← List.append_assoc, ← List.reverse_append] at apart ⊢
    exact ⟨apart, rfl⟩

/-- The members a type lists pass if each of them exists and is owned by the type, and none is met
twice. -/
theorem checkListed_eq_ok_iff {ι : Type} [DecidableEq ι] {member? : ι → Option (TypeId × String)}
    {unknown : ι → ModelError} {owner : TypeId} {typeName : String} {seen listed met : List ι}
    (apart : seen.Nodup) :
    checkListed member? unknown owner typeName seen listed = .ok met ↔
      (∀ id ∈ listed, (member? id).map Prod.fst = some owner) ∧ Met seen listed met := by
  induction listed generalizing seen with
  | nil =>
      rw [checkListed, Except.ok.injEq, Met, List.reverse_nil, List.nil_append]
      constructor
      · rintro rfl
        exact ⟨nofun, apart, rfl⟩
      · rintro ⟨-, -, rfl⟩
        rfl
  | cons first rest ih =>
      have onTop : Met seen (first :: rest) met ↔ first ∉ seen ∧ Met (first :: seen) rest met := by
        have one (between : List ι) : Met seen [first] between ↔
            first ∉ seen ∧ between = first :: seen := by
          rw [Met, List.reverse_singleton, List.singleton_append]
          refine and_congr_left fun same => ?_
          rw [same, List.nodup_cons, and_iff_left apart]
        rw [← List.singleton_append, met_append_iff]
        simp only [one, and_assoc, exists_and_left, exists_eq_left]
      rw [checkListed, List.forall_mem_cons, onTop]
      cases found : member? first with
      | none =>
          refine ⟨nofun, fun all => ?_⟩
          cases all.1.1
      | some member =>
          obtain ⟨actual, name⟩ := member
          dsimp only
          rw [Option.map_some, Option.some.injEq]
          split_ifs with misplaced
          · rw [Bool.or_eq_true, decide_eq_true_eq, List.contains_iff_mem] at misplaced
            refine ⟨nofun, fun all => ?_⟩
            exact misplaced.elim (absurd all.1.1) (absurd · all.2.1)
          · rw [Bool.or_eq_true, decide_eq_true_eq, List.contains_iff_mem, not_or, not_not]
              at misplaced
            rw [ih (List.nodup_cons.mpr ⟨misplaced.2, apart⟩), and_iff_right misplaced.1,
              and_iff_right misplaced.2]

/-- The members listed by a type exist and are owned by a type of a certain number. -/
def OwnsListed (p : Program) (owner : TypeId) (t : TypeEntry) : Prop :=
  (∀ m ∈ t.methods, p.HasMethod m ∧ (p.method m).owner = owner) ∧
    ∀ f ∈ t.fields, p.HasField f ∧ (p.field f).owner = owner

private theorem methodOwner?_eq_some_iff {p : Program} {m : MethodId} {owner : TypeId} :
    (p.methods[m.index]?.map fun m => (m.owner, m.name)).map Prod.fst = some owner ↔
      p.HasMethod m ∧ (p.method m).owner = owner := by
  rw [Option.map_map, Option.map_eq_some_iff]
  constructor
  · rintro ⟨entry, found, rfl⟩
    obtain ⟨inside, rfl⟩ := method_eq_of_getElem? found
    exact ⟨inside, rfl⟩
  · rintro ⟨inside, rfl⟩
    have found := List.getElem?_eq_getElem inside
    refine ⟨_, found, ?_⟩
    rw [(method_eq_of_getElem? found).2]
    rfl

private theorem fieldOwner?_eq_some_iff {p : Program} {f : FieldId} {owner : TypeId} :
    (p.fields[f.index]?.map fun f => (f.owner, f.name)).map Prod.fst = some owner ↔
      p.HasField f ∧ (p.field f).owner = owner := by
  rw [Option.map_map, Option.map_eq_some_iff]
  constructor
  · rintro ⟨entry, found, rfl⟩
    obtain ⟨inside, rfl⟩ := field_eq_of_getElem? found
    exact ⟨inside, rfl⟩
  · rintro ⟨inside, rfl⟩
    have found := List.getElem?_eq_getElem inside
    refine ⟨_, found, ?_⟩
    rw [(field_eq_of_getElem? found).2]
    rfl

/-- The types from a number on pass if each of them lists members that exist and that it owns, and
no member is met twice. -/
theorem checkTypes_eq_ok_iff {p : Program} {index : Nat} {types : List TypeEntry}
    {methods methods' : List MethodId} {fields fields' : List FieldId}
    (apartMethods : methods.Nodup) (apartFields : fields.Nodup) :
    p.checkTypes index methods fields types = .ok (methods', fields') ↔
      (∀ i t, types[i]? = some t → p.OwnsListed ⟨index + i⟩ t) ∧
      Met methods (types.flatMap (·.methods)) methods' ∧
      Met fields (types.flatMap (·.fields)) fields' := by
  induction types generalizing index methods fields with
  | nil =>
      rw [checkTypes, Except.ok.injEq, Prod.mk.injEq]
      constructor
      · rintro ⟨rfl, rfl⟩
        exact ⟨nofun, ⟨apartMethods, rfl⟩, apartFields, rfl⟩
      · rintro ⟨-, ⟨-, rfl⟩, -, rfl⟩
        exact ⟨rfl, rfl⟩
  | cons first rest ih =>
      have owned : (∀ i t, (first :: rest)[i]? = some t → p.OwnsListed ⟨index + i⟩ t) ↔
          p.OwnsListed ⟨index⟩ first ∧
            ∀ i t, rest[i]? = some t → p.OwnsListed ⟨index + 1 + i⟩ t := by
        have shifted (i : Nat) : index + (i + 1) = index + 1 + i := by omega
        refine Nat.and_forall_add_one.symm.trans (and_congr ?_ (forall_congr' fun i => ?_))
        · simp only [List.getElem?_cons_zero, Option.some.injEq, forall_eq', Nat.add_zero]
        · rw [List.getElem?_cons_succ, shifted]
      rw [checkTypes, bind_eq_ok_iff, owned, List.flatMap_cons, List.flatMap_cons, met_append_iff,
        met_append_iff]
      constructor
      · rintro ⟨methods₁, checkedMethods, checked⟩
        obtain ⟨fields₁, checkedFields, checked⟩ := bind_eq_ok_iff.mp checked
        obtain ⟨ownedMethods, metMethods⟩ := (checkListed_eq_ok_iff apartMethods).mp checkedMethods
        obtain ⟨ownedFields, metFields⟩ := (checkListed_eq_ok_iff apartFields).mp checkedFields
        obtain ⟨later, laterMethods, laterFields⟩ := (ih metMethods.1 metFields.1).mp checked
        simp only [methodOwner?_eq_some_iff] at ownedMethods
        simp only [fieldOwner?_eq_some_iff] at ownedFields
        exact ⟨⟨⟨ownedMethods, ownedFields⟩, later⟩, ⟨methods₁, metMethods, laterMethods⟩, fields₁,
          metFields, laterFields⟩
      · rintro ⟨⟨⟨ownedMethods, ownedFields⟩, later⟩, ⟨methods₁, metMethods, laterMethods⟩,
          fields₁, metFields, laterFields⟩
        simp only [← methodOwner?_eq_some_iff] at ownedMethods
        simp only [← fieldOwner?_eq_some_iff] at ownedFields
        have checked := (ih metMethods.1 metFields.1).mpr ⟨later, laterMethods, laterFields⟩
        refine ⟨methods₁, (checkListed_eq_ok_iff apartMethods).mpr ⟨ownedMethods, metMethods⟩, ?_⟩
        exact bind_eq_ok_iff.mpr ⟨fields₁,
          (checkListed_eq_ok_iff apartFields).mpr ⟨ownedFields, metFields⟩, checked⟩

/-- All methods the types list. -/
def listedMethods (p : Program) : List MethodId := p.types.flatMap (·.methods)

/-- All fields the types list. -/
def listedFields (p : Program) : List FieldId := p.types.flatMap (·.fields)

theorem mem_listedMethods {p : Program} {m : MethodId} :
    m ∈ p.listedMethods ↔ ∃ t, m ∈ (p.type t).methods := by
  rw [listedMethods, List.mem_flatMap]
  constructor
  · rintro ⟨entry, member, lists⟩
    obtain ⟨i, found⟩ := List.mem_iff_getElem?.mp member
    obtain ⟨-, rfl⟩ := type_eq_of_getElem? (t := ⟨i⟩) found
    exact ⟨⟨i⟩, lists⟩
  · rintro ⟨t, lists⟩
    have inside := hasType_of_listed (.inl (List.ne_nil_of_mem lists))
    exact ⟨_, List.mem_of_getElem? (getElem?_types inside), lists⟩

theorem mem_listedFields {p : Program} {f : FieldId} :
    f ∈ p.listedFields ↔ ∃ t, f ∈ (p.type t).fields := by
  rw [listedFields, List.mem_flatMap]
  constructor
  · rintro ⟨entry, member, lists⟩
    obtain ⟨i, found⟩ := List.mem_iff_getElem?.mp member
    obtain ⟨-, rfl⟩ := type_eq_of_getElem? (t := ⟨i⟩) found
    exact ⟨⟨i⟩, lists⟩
  · rintro ⟨t, lists⟩
    have inside := hasType_of_listed (.inr (List.ne_nil_of_mem lists))
    exact ⟨_, List.mem_of_getElem? (getElem?_types inside), lists⟩

/-- The last two checks pass if everything there is has been met. -/
private theorem allMet_iff {ι : Type} [DecidableEq ι] {ids met : List ι} :
    ids.find? (fun id => !met.contains id) = none ↔ ∀ id ∈ ids, id ∈ met := by
  simp [List.find?_eq_none]

/-- **What validation checks.** -/
theorem validate_eq_ok_iff_checks {p : Program} : p.validate = .ok () ↔
    p.checkNames = .ok () ∧ (∀ t, p.HasType t → p.OwnsListed t (p.type t)) ∧
      (p.listedMethods.Nodup ∧ ∀ m, p.HasMethod m → m ∈ p.listedMethods) ∧
      p.listedFields.Nodup ∧ ∀ f, p.HasField f → f ∈ p.listedFields := by
  have owned : (∀ i t, p.types[i]? = some t → p.OwnsListed ⟨0 + i⟩ t) ↔
      ∀ t, p.HasType t → p.OwnsListed t (p.type t) := by
    constructor
    · intro all t inside
      have entry := all t.index (p.type t) (getElem?_types inside)
      rw [Nat.zero_add] at entry
      exact entry
    · intro all i t found
      obtain ⟨inside, rfl⟩ := type_eq_of_getElem? (t := ⟨i⟩) found
      rw [Nat.zero_add]
      exact all ⟨i⟩ inside
  have met {ι : Type} {listed met : List ι} :
      Met [] listed met ↔ listed.Nodup ∧ met = listed.reverse := by
    rw [Met, List.append_nil]
    refine and_congr_left fun same => ?_
    rw [same, List.nodup_reverse]
  have metMethods {met : List MethodId} (all : met = p.listedMethods.reverse) :
      p.methodIds.find? (fun id => !met.contains id) = none ↔
        ∀ m, p.HasMethod m → m ∈ p.listedMethods := by
    simp only [allMet_iff, all, mem_methodIds, List.mem_reverse]
  have metFields {met : List FieldId} (all : met = p.listedFields.reverse) :
      p.fieldIds.find? (fun id => !met.contains id) = none ↔
        ∀ f, p.HasField f → f ∈ p.listedFields := by
    simp only [allMet_iff, all, mem_fieldIds, List.mem_reverse]
  rw [validate, bind_eq_ok_iff]
  simp only [bind_eq_ok_iff, Prod.exists, checkTypes_eq_ok_iff List.nodup_nil List.nodup_nil, owned,
    met]
  constructor
  · rintro ⟨⟨⟩, names, methods, fields, ⟨owned, ⟨apartMethods, sameMethods⟩, apartFields,
      sameFields⟩, valid⟩
    split at valid
    · cases valid
    next allMethods =>
    split at valid
    · cases valid
    next allFields =>
    exact ⟨names, owned, ⟨apartMethods, (metMethods sameMethods).mp allMethods⟩, apartFields,
      (metFields sameFields).mp allFields⟩
  · rintro ⟨names, owned, ⟨apartMethods, allMethods⟩, apartFields, allFields⟩
    refine ⟨(), names, p.listedMethods.reverse, p.listedFields.reverse,
      ⟨owned, ⟨apartMethods, rfl⟩, apartFields, rfl⟩, ?_⟩
    rw [(metMethods rfl).mpr allMethods, (metFields rfl).mpr allFields]

/-- **Validation establishes coherence.** -/
theorem coherent_of_validate {p : Program} (valid : p.validate = .ok ()) : p.Coherent := by
  obtain ⟨names, owned, ⟨-, allMethods⟩, -, allFields⟩ := validate_eq_ok_iff_checks.mp valid
  obtain ⟨-, named⟩ := checkNames_eq_ok_iff.mp names
  have methodListed : ∀ {t m}, m ∈ (p.type t).methods → p.HasMethod m ∧ (p.method m).owner = t := by
    intro t m member
    exact (owned t (hasType_of_listed (.inl (List.ne_nil_of_mem member)))).1 m member
  have fieldListed : ∀ {t f}, f ∈ (p.type t).fields → p.HasField f ∧ (p.field f).owner = t := by
    intro t f member
    exact (owned t (hasType_of_listed (.inr (List.ne_nil_of_mem member)))).2 f member
  refine ⟨named _ _, methodListed, fieldListed, ?_, ?_⟩
  · intro m inside
    obtain ⟨t, lists⟩ := mem_listedMethods.mp (allMethods m inside)
    rw [(methodListed lists).2]
    exact lists
  · intro f inside
    obtain ⟨t, lists⟩ := mem_listedFields.mp (allFields f inside)
    rw [(fieldListed lists).2]
    exact lists

/-! ## The smallest program with members -/

/-- A program of one class, with a static initializer and an instance field. -/
def single (type field : String) : Program where
  types := [{ name := type, kind := .plain, superclass := none, interfaces := [], signature := none,
              enumConstants := [], methods := [⟨0⟩], fields := [⟨0⟩] }]
  methods := [{ name := "<clinit>", descriptor := "()V", isStatic := true, isSynthetic := false,
                signature := ⟨[], .primitive 'V'⟩, body := none, owner := ⟨0⟩ }]
  fields := [{ name := field, descriptor := "I", type := .primitive 'I', isStatic := false,
               owner := ⟨0⟩ }]
  byName := .ofList [(type, ⟨0⟩)]

theorem validate_single (type field : String) : (single type field).validate = .ok () := by
  have names : (single type field).checkNames = .ok () := by
    have sized : ¬ (single type field).byName.size ≠ (single type field).types.length :=
      fun different => different rfl
    have named : ¬ type ≠ type := fun different => different rfl
    unfold checkNames
    rw [if_neg sized]
    change (if type ≠ type then _ else Except.ok ()) >>= _ = _
    rw [if_neg named]
    rfl
  unfold validate
  rw [names]
  rfl

/-! ## The smallest hierarchy with a cycle -/

/-- A program of two classes that extend each other. The first has a constructor, and both have a
method of the same name and descriptor. -/
def ring : Program where
  types := [{ name := "a", kind := .plain, superclass := some "b", interfaces := [],
              signature := none, enumConstants := [], methods := [⟨0⟩, ⟨1⟩], fields := [] },
            { name := "b", kind := .plain, superclass := some "a", interfaces := [],
              signature := none, enumConstants := [], methods := [⟨2⟩], fields := [] }]
  methods := [{ name := "<init>", descriptor := "()V", isStatic := false, isSynthetic := false,
                signature := ⟨[], .primitive 'V'⟩, body := none, owner := ⟨0⟩ },
              { name := "run", descriptor := "()V", isStatic := false, isSynthetic := false,
                signature := ⟨[], .primitive 'V'⟩, body := none, owner := ⟨0⟩ },
              { name := "run", descriptor := "()V", isStatic := false, isSynthetic := false,
                signature := ⟨[], .primitive 'V'⟩, body := none, owner := ⟨1⟩ }]
  fields := []
  byName := .ofList [("a", ⟨0⟩), ("b", ⟨1⟩)]

theorem validate_ring : ring.validate = .ok () := rfl

end Program

end Namesake
