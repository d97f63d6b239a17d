import Namesake.Merge.Projection
import Namesake.Proofs.LedgerRules
import Namesake.Proofs.MappingSets
import Namesake.Proofs.UniqueNames

/-! # What is carried over

Carrying the names over adds the names the confirmed pairs tell, kind by kind, and in between the
numbered names of anonymous types. Names that are there stay (`extends_project`), what is added
comes from a confirmed pair or a number, and a confirmed pair whose old thing has a plain name gets
it unless a name that was there before is in the way: real pairs come before placeholders, and two
of them never compete for a new thing or a plain name.
-/

namespace Namesake

/-! ## What a pair tells -/

namespace Context

/-- The plain name an old type or a placeholder has for a new type. -/
def typeNameOf? (c : Context) : Handle TypeId → Option String
  | .real o => c.names.mapType? (c.old.program.type o).name
  | .synthetic s => some s.name

/-- The plain name an old field has for a new one, or a placeholder if the new owner is named. -/
def fieldNameOf? (c : Context) (isNamed : String → Bool) (owner : String) :
    Handle FieldId → Option String
  | .real o => c.names.mapField? (c.old.program.fieldOwnerName o) (c.old.program.field o).name
  | .synthetic s => if isNamed owner then some s.name else none

/-- The plain name an old method has for a new one, or a placeholder if the new owner is named. -/
def methodNameOf? (c : Context) (isNamed : String → Bool) (owner : String) :
    Handle MethodId → Option String
  | .real o => c.names.mapMethod? (c.old.program.methodOwnerName o) (c.old.program.method o).name
      (c.old.program.method o).descriptor
  | .synthetic s => if isNamed owner then some s.name else none

end Context

namespace Context

/-- What a pair of types tells: the new name, and the plain name for it. -/
def toldType? (c : Context) (k : Handle TypeId) (n : TypeId) : Option (String × String) := do
  let plain ← c.typeNameOf? k
  return ((c.new.program.type n).name, plain)

/-- What a pair of fields tells: the new owner and name, and the plain name for them. -/
def toldField? (c : Context) (isNamed : String → Bool) (k : Handle FieldId) (g : FieldId) :
    Option (String × String × String) := do
  let owner := c.new.program.fieldOwnerName g
  let plain ← c.fieldNameOf? isNamed owner k
  return (owner, (c.new.program.field g).name, plain)

/-- What a pair of methods tells: the new owner, name and descriptor, and the plain name for
them. -/
def toldMethod? (c : Context) (isNamed : String → Bool) (k : Handle MethodId) (n : MethodId) :
    Option (String × (String × String) × String) := do
  let owner := c.new.program.methodOwnerName n
  let plain ← c.methodNameOf? isNamed owner k
  return (owner, ((c.new.program.method n).name, (c.new.program.method n).descriptor), plain)

end Context

section

variable (c : Context) (l : Ledger) (isNamed : String → Bool)

theorem carriedTypes_eq : carriedTypes c l = l.types.confirmed.values.filterMap fun e =>
    e.target >>= c.toldType? e.old := by
  unfold carriedTypes
  congr
  funext e
  cases e.target with
  | none => rfl
  | some n => cases e.old <;> rfl

theorem carriedFields_eq : carriedFields c l isNamed =
    l.fields.confirmed.values.filterMap fun e => e.target >>= c.toldField? isNamed e.old := by
  unfold carriedFields
  dsimp only
  congr
  funext e
  cases e.target with
  | none => rfl
  | some g =>
      cases e.old with
      | real o => rfl
      | synthetic s =>
          change (if isNamed (c.new.program.fieldOwnerName g) = true then _ else _) =
            ((if isNamed (c.new.program.fieldOwnerName g) = true then some s.name else none) >>= _)
          split_ifs <;> rfl

theorem carriedMethods_eq : (carriedMethods c l isNamed).map MappingSet.methodKeyed =
    l.methods.confirmed.values.filterMap fun e => e.target >>= c.toldMethod? isNamed e.old := by
  unfold carriedMethods
  dsimp only
  rw [List.map_filterMap]
  congr
  funext e
  cases e.target with
  | none => rfl
  | some n =>
      cases e.old with
      | real o =>
          change Option.map _ (c.names.mapMethod? _ _ _ >>= _) = (c.names.mapMethod? _ _ _ >>= _)
          cases c.names.mapMethod? (c.old.program.methodOwnerName o) _ _ <;> rfl
      | synthetic s =>
          change Option.map _ (if isNamed (c.new.program.methodOwnerName n) = true then _ else _) =
            ((if isNamed (c.new.program.methodOwnerName n) = true then some s.name else none) >>= _)
          split_ifs <;> rfl

end

/-- What is read off the confirmed entries is told by the confirmed pairs. -/
theorem Partition.Sound.mem_told {ι α : Type} [KeyOrder ι] {p : Partition ι} (sound : p.Sound)
    {told? : Handle ι → ι → Option α} {a : α} :
    a ∈ p.confirmed.values.filterMap (fun e => e.target >>= told? e.old) ↔
      ∃ k n, p.target? k = some n ∧ told? k n = some a := by
  rw [List.mem_filterMap]
  constructor
  · rintro ⟨e, member, told⟩
    obtain ⟨k, found⟩ := SortedMap.mem_values.mp member
    obtain ⟨n, target, told⟩ := Option.bind_eq_some_iff.mp told
    rw [sound.confirmedKey found] at told
    exact ⟨k, n, target?_eq_some_iff.mpr ⟨e, found, target⟩, told⟩
  · rintro ⟨k, n, confirmed, told⟩
    obtain ⟨e, found, target⟩ := target?_eq_some_iff.mp confirmed
    refine ⟨e, SortedMap.mem_values.mpr ⟨k, found⟩, ?_⟩
    rw [target, sound.confirmedKey found]
    exact told

section

variable {ι κ : Type} [KeyOrder ι] [DecidableEq κ] {p : Partition ι}
  {told? : Handle ι → ι → Option (String × κ × String)} {owner : String} {key : κ} {plain : String}

/-- A confirmed pair that tells a name for a key hands it on if no other pair tells one for it. -/
theorem Partition.Sound.find?_told (sound : p.Sound) {k : Handle ι} {n : ι}
    (confirmed : p.target? k = some n) (told : told? k n = some (owner, key, plain))
    (alone : ∀ k' n' plain', p.target? k' = some n' → told? k' n' = some (owner, key, plain') →
      n' = n) :
    (((p.confirmed.values.filterMap fun e => e.target >>= told? e.old).find? fun e =>
      e.1 = owner ∧ e.2.1 = key).map (·.2.2)) = some plain := by
  have listed := sound.mem_told.mpr ⟨k, n, confirmed, told⟩
  cases found : (p.confirmed.values.filterMap fun e => e.target >>= told? e.old).find? fun e =>
      e.1 = owner ∧ e.2.1 = key with
  | none => simpa using List.find?_eq_none.mp found _ listed
  | some e =>
      obtain ⟨owner', key', plain'⟩ := e
      have same := List.find?_some found
      rw [decide_eq_true_eq] at same
      obtain ⟨rfl, rfl⟩ := same
      obtain ⟨k', n', confirmed', told'⟩ := sound.mem_told.mp (List.mem_of_find?_eq_some found)
      obtain rfl := alone k' n' plain' confirmed' told'
      obtain rfl := sound.target?_injective confirmed' confirmed
      rw [told'] at told
      exact congrArg (fun e => some e.2.2) (Option.some.inj told)

/-- The first name told for a key is told by a confirmed pair. -/
theorem Partition.Sound.told_of_find? (sound : p.Sound)
    (found : (((p.confirmed.values.filterMap fun e => e.target >>= told? e.old).find? fun e =>
      e.1 = owner ∧ e.2.1 = key).map (·.2.2)) = some plain) :
    ∃ k n, p.target? k = some n ∧ told? k n = some (owner, key, plain) := by
  obtain ⟨⟨owner', key', plain'⟩, first, rfl⟩ := Option.map_eq_some_iff.mp found
  have same := List.find?_some first
  rw [decide_eq_true_eq] at same
  obtain ⟨rfl, rfl⟩ := same
  exact sound.mem_told.mp (List.mem_of_find?_eq_some first)

end

/-- What a real pair tells is read after what other real pairs tell, and before what placeholders
do. -/
theorem Partition.Sound.told_split {ι α : Type} [KeyOrder ι] {p : Partition ι} (sound : p.Sound)
    {told? : Handle ι → ι → Option α} {o n : ι} {a : α} (confirmed : p.target? (.real o) = some n)
    (told : told? (.real o) n = some a) :
    ∃ before after,
      p.confirmed.values.filterMap (fun e => e.target >>= told? e.old) = before ++ a :: after ∧
      ∀ b ∈ before, ∃ o' n', o' ≠ o ∧ p.target? (.real o') = some n' ∧
        told? (.real o') n' = some b := by
  obtain ⟨e, found, target⟩ := target?_eq_some_iff.mp confirmed
  obtain ⟨earlier, later, split⟩ := List.append_of_mem (SortedMap.mem_toList.mpr found)
  refine ⟨(earlier.map Prod.snd).filterMap fun e => e.target >>= told? e.old,
    (later.map Prod.snd).filterMap fun e => e.target >>= told? e.old, ?_, ?_⟩
  · have here : (e.target >>= told? e.old) = some a := by
      rw [target, sound.confirmedKey found]
      exact told
    rw [SortedMap.values, split, List.map_append, List.map_cons, List.filterMap_append,
      List.filterMap_cons_some (f := fun e : MatchEntry ι => e.target >>= told? e.old) here]
  · intro b member
    obtain ⟨e', listed, told'⟩ := List.mem_filterMap.mp member
    obtain ⟨⟨k, e'⟩, entry, rfl⟩ := List.mem_map.mp listed
    obtain ⟨n', target', told'⟩ := Option.bind_eq_some_iff.mp told'
    have found' : p.confirmed.get? k = some e' := by
      apply SortedMap.mem_toList.mp
      rw [split]
      exact List.mem_append_left _ entry
    have ordered : KeyOrder.before k (.real o) = true := by
      have sorted := p.confirmed.sorted
      rw [split] at sorted
      exact (List.pairwise_append.mp sorted).2.2 _ entry _ List.mem_cons_self
    rw [sound.confirmedKey found'] at told'
    cases k with
    | real o' =>
        refine ⟨o', n', ?_, target?_eq_some_iff.mpr ⟨e', found', target'⟩, told'⟩
        rintro rfl
        exact KeyOrder.ne_of_before ordered rfl
    | synthetic s => cases ordered

variable {c : Context} {l : Ledger}

theorem Context.toldType?_eq_some_iff {k : Handle TypeId} {n : TypeId} {x p : String} :
    c.toldType? k n = some (x, p) ↔
      (c.new.program.type n).name = x ∧ c.typeNameOf? k = some p := by
  simp only [toldType?, Option.bind_eq_bind, Option.bind_eq_some_iff, Option.pure_def,
    Option.some.injEq, Prod.mk.injEq]
  constructor
  · rintro ⟨p', told, name, rfl⟩
    exact ⟨name, told⟩
  · rintro ⟨name, told⟩
    exact ⟨p, told, name, rfl⟩

theorem Context.toldField?_eq_some_iff {isNamed : String → Bool} {k : Handle FieldId}
    {g : FieldId} {owner name plain : String} :
    c.toldField? isNamed k g = some (owner, name, plain) ↔
      c.new.program.fieldOwnerName g = owner ∧ (c.new.program.field g).name = name ∧
        c.fieldNameOf? isNamed owner k = some plain := by
  simp only [toldField?, Option.bind_eq_bind, Option.bind_eq_some_iff, Option.pure_def,
    Option.some.injEq, Prod.mk.injEq]
  constructor
  · rintro ⟨plain', told, rfl, named, rfl⟩
    exact ⟨rfl, named, told⟩
  · rintro ⟨rfl, named, told⟩
    exact ⟨plain, told, rfl, named, rfl⟩

theorem Context.toldMethod?_eq_some_iff {isNamed : String → Bool} {k : Handle MethodId}
    {n : MethodId} {owner name descriptor plain : String} :
    c.toldMethod? isNamed k n = some (owner, (name, descriptor), plain) ↔
      c.new.program.methodOwnerName n = owner ∧ (c.new.program.method n).name = name ∧
        (c.new.program.method n).descriptor = descriptor ∧
        c.methodNameOf? isNamed owner k = some plain := by
  simp only [toldMethod?, Option.bind_eq_bind, Option.bind_eq_some_iff, Option.pure_def,
    Option.some.injEq, Prod.mk.injEq]
  constructor
  · rintro ⟨plain', told, rfl, ⟨named, described⟩, rfl⟩
    exact ⟨rfl, named, described, told⟩
  · rintro ⟨rfl, named, described, told⟩
    exact ⟨plain, told, rfl, ⟨named, described⟩, rfl⟩

/-! ## Anonymous types -/

/-- Different numbers make different names. -/
theorem numberedName_injective (outer : String) : Function.Injective (numberedName outer) := by
  intro a b same
  simp only [numberedName, ← String.toList_inj, String.toList_append] at same
  have digits : Nat.toDigits 10 a = Nat.toDigits 10 b := by
    have text := List.append_cancel_left same
    rwa [Nat.toString_eq_ofList_toDigits, Nat.toString_eq_ofList_toDigits, String.toList_ofList,
      String.toList_ofList] at text
  -- digits are read back as the number they were written for
  rw [← Nat.ofDigitChars_ten_toDigits (n := a), digits, Nat.ofDigitChars_ten_toDigits]

/-- The first number from one on whose name is not taken. -/
structure IsFirstFree (isTaken : String → Prop) (outer : String) (number index : Nat) : Prop where
  above : number ≤ index
  free : ¬ isTaken (numberedName outer index)
  least : ∀ j, number ≤ j → j < index → isTaken (numberedName outer j)

/-- **The first free name is found**, after no more tries than there are names that are taken. -/
theorem freeNumberedName_first (outer : String) (taken : List String) (number : Nat) :
    ∃ index, IsFirstFree (· ∈ taken) outer number index ∧ index ≤ number + taken.length ∧
      freeNumberedName outer taken number = numberedName outer index := by
  fun_induction freeNumberedName outer taken number with
  | case1 taken number name inside ih =>
      obtain ⟨index, first, bound, named⟩ := ih
      have beyond : number < index := first.above
      have other : numberedName outer index ≠ name := fun same =>
        Nat.ne_of_gt beyond (numberedName_injective outer same)
      refine ⟨index, ⟨Nat.le_of_lt beyond, ?free, ?least⟩, ?_, named⟩
      case free => exact fun member => first.free ((List.mem_erase_of_ne other).mpr member)
      case least =>
        intro j above below
        rcases Nat.eq_or_lt_of_le above with rfl | later
        · exact inside
        · exact List.mem_of_mem_erase (first.least j later below)
      · have filled := List.length_pos_of_mem inside
        rw [List.length_erase_of_mem inside] at bound
        omega
  | case2 taken number name outside =>
      refine ⟨number, ⟨Nat.le_refl number, outside, ?_⟩, Nat.le_add_right _ _, rfl⟩
      intro j above below
      exact absurd above (Nat.not_le_of_lt below)

/-- A type has the name of the type around it, with its number or a later one. -/
def MappingSet.IsNumbered (s : MappingSet) (name plain : String) : Prop :=
  ∃ outer outerPlain number index, TypeName.outer? name = some outer ∧
    s.mapType? outer = some outerPlain ∧ TypeName.anonymousIndex? name = some number ∧
    number ≤ index ∧ plain = numberedName outerPlain index

theorem MappingSet.IsNumbered.mono {s s' : MappingSet} {name plain : String}
    (numbered : s.IsNumbered name plain) (extends_ : s.Extends s') : s'.IsNumbered name plain := by
  obtain ⟨outer, outerPlain, number, index, around, named, rest⟩ := numbered
  exact ⟨outer, outerPlain, number, index, around, extends_.type named, rest⟩

/-- An anonymous type is left alone or numbered. -/
theorem nameAnonymous_cases (s : MappingSet) (name : String) :
    nameAnonymous s name = s ∨
      ∃ plain, s.IsNumbered name plain ∧ nameAnonymous s name = s.addType name plain := by
  unfold nameAnonymous
  dsimp only
  split
  · next plain found =>
    right
    simp only [Option.bind_eq_bind, Option.bind_eq_some_iff, Option.pure_def,
      Option.some.injEq] at found
    obtain ⟨-, -, outer, around, outerPlain, named, number, numbered, rfl⟩ := found
    obtain ⟨index, first, -, chosen⟩ := freeNumberedName_first outerPlain s.inverse.keys number
    exact ⟨_, ⟨outer, outerPlain, number, index, around, named, numbered, first.above, chosen⟩, rfl⟩
  · exact .inl rfl

theorem extends_nameAnonymous (s : MappingSet) (name : String) :
    s.Extends (nameAnonymous s name) := by
  rcases nameAnonymous_cases s name with same | ⟨plain, -, named⟩
  · rw [same]
    exact .refl s
  · rw [named]
    exact s.extends_addType name plain

/-- Naming anonymous types leaves members alone. -/
theorem members_nameAnonymous (s : MappingSet) (name : String) :
    (nameAnonymous s name).fields = s.fields ∧ (nameAnonymous s name).methods = s.methods := by
  rcases nameAnonymous_cases s name with same | ⟨plain, -, named⟩
  · rw [same]
    exact ⟨rfl, rfl⟩
  · rw [named]
    exact s.members_addType name plain

/-- After anonymous types were named, a type had its name before or it was numbered. -/
theorem isNumbered_of_mapType?_foldl {names : List String} {s : MappingSet} {x p : String}
    (named : (names.foldl nameAnonymous s).mapType? x = some p) :
    s.mapType? x = some p ∨ x ∈ names ∧ (names.foldl nameAnonymous s).IsNumbered x p := by
  induction names generalizing s with
  | nil => exact .inl named
  | cons first rest ih =>
      rcases ih named with before | ⟨member, numbered⟩
      · rcases nameAnonymous_cases s first with same | ⟨plain, numbered, given⟩
        · rw [same] at before
          exact .inl before
        · have kept := (extends_nameAnonymous s first).trans
            (.foldl extends_nameAnonymous rest (nameAnonymous s first))
          rw [given, MappingSet.mapType?_addType] at before
          split_ifs at before with here
          · obtain rfl := Option.some.inj before
            obtain ⟨-, rfl⟩ := here
            exact .inr ⟨List.mem_cons_self, numbered.mono kept⟩
          · exact .inl before
      · exact .inr ⟨List.mem_cons_of_mem first member, numbered⟩

/-! ## All names together -/

/-- The names with those of types and anonymous types carried over. -/
def namedTypes (c : Context) (l : Ledger) (names : MappingSet) : MappingSet :=
  let named := (carriedTypes c l).foldl (fun s e => s.addType e.1 e.2) names
  if c.settings.nameAnonymousClasses then c.new.program.anonymousNames.foldl nameAnonymous named
  else named

/-- Whether the names with those of types carried over name a type. -/
def namesType (c : Context) (l : Ledger) (names : MappingSet) (name : String) : Bool :=
  ((namedTypes c l names).mapType? name).isSome

variable {names : MappingSet}

/-- The names of members come after those of types. -/
theorem project_eq (c : Context) (l : Ledger) (names : MappingSet) :
    project c l names =
      (carriedMethods c l (namesType c l names)).foldl
        (fun s e => MappingSet.addMethod s e.1 e.2.1 e.2.2.1 e.2.2.2)
        ((carriedFields c l (namesType c l names)).foldl
          (fun s e => MappingSet.addField s e.1 e.2.1 e.2.2) (namedTypes c l names)) :=
  rfl

/-- The names with those of confirmed types carried over. -/
def carriedOver (c : Context) (l : Ledger) (names : MappingSet) : MappingSet :=
  (carriedTypes c l).foldl (fun s e => s.addType e.1 e.2) names

theorem extends_carriedOver (c : Context) (l : Ledger) (names : MappingSet) :
    names.Extends (carriedOver c l names) :=
  .foldl (fun s (e : String × String) => s.extends_addType e.1 e.2) _ _

/-- Anonymous types are numbered after the names of types are carried over, if they are at all. -/
theorem namedTypes_eq (c : Context) (l : Ledger) (names : MappingSet) :
    namedTypes c l names =
      (if c.settings.nameAnonymousClasses then c.new.program.anonymousNames else []).foldl
        nameAnonymous (carriedOver c l names) := by
  unfold namedTypes
  split_ifs <;> rfl

theorem carriedOver_extends_namedTypes (c : Context) (l : Ledger) (names : MappingSet) :
    (carriedOver c l names).Extends (namedTypes c l names) := by
  rw [namedTypes_eq]
  exact .foldl extends_nameAnonymous _ _

theorem namedTypes_extends_project (c : Context) (l : Ledger) (names : MappingSet) :
    (namedTypes c l names).Extends (project c l names) := by
  rw [project_eq]
  have fields := MappingSet.Extends.foldl (fun s (e : String × String × String) =>
    s.extends_addField e.1 e.2.1 e.2.2) (carriedFields c l (namesType c l names))
    (namedTypes c l names)
  apply fields.trans
  exact .foldl (fun s (e : String × String × String × String) =>
    s.extends_addMethod e.1 e.2.1 e.2.2.1 e.2.2.2) _ _

/-- **Names that are there stay.** -/
theorem extends_project (c : Context) (l : Ledger) (names : MappingSet) :
    names.Extends (project c l names) :=
  (extends_carriedOver c l names).trans <|
    (carriedOver_extends_namedTypes c l names).trans (namedTypes_extends_project c l names)

theorem members_namedTypes (c : Context) (l : Ledger) (names : MappingSet) :
    (namedTypes c l names).fields = names.fields ∧
      (namedTypes c l names).methods = names.methods := by
  rw [namedTypes_eq]
  refine List.foldlRecOn (motive := fun s : MappingSet =>
    s.fields = names.fields ∧ s.methods = names.methods) _ _
    (MappingSet.members_foldl_addType (carriedTypes c l) names) ?_
  rintro s ⟨fields, methods⟩ name -
  obtain ⟨fields', methods'⟩ := members_nameAnonymous s name
  exact ⟨fields'.trans fields, methods'.trans methods⟩

/-- The names of types do not depend on those of members. -/
theorem mapType?_project (c : Context) (l : Ledger) (names : MappingSet) (x : String) :
    (project c l names).mapType? x = (namedTypes c l names).mapType? x := by
  rw [project_eq, MappingSet.foldl_addField, MappingSet.foldl_addMethod]
  rfl

/-- A field has the name it had, or else the first that is told for it. -/
theorem mapField?_project (c : Context) (l : Ledger) (names : MappingSet) (owner name : String) :
    (project c l names).mapField? owner name = (names.mapField? owner name).or
      (((l.fields.confirmed.values.filterMap fun e =>
        e.target >>= c.toldField? (namesType c l names) e.old).find? fun e =>
          e.1 = owner ∧ e.2.1 = name).map (·.2.2)) := by
  rw [project_eq, MappingSet.foldl_addMethod, MappingSet.foldl_addField, carriedFields_eq]
  change nestedGet? _ owner name = _
  rw [nestedGet?_foldl, (members_namedTypes c l names).1]
  rfl

/-- A method has the name it had, or else the first that is told for it. -/
theorem mapMethod?_project (c : Context) (l : Ledger) (names : MappingSet)
    (owner name descriptor : String) :
    (project c l names).mapMethod? owner name descriptor =
      (names.mapMethod? owner name descriptor).or
        (((l.methods.confirmed.values.filterMap fun e =>
          e.target >>= c.toldMethod? (namesType c l names) e.old).find? fun e =>
            e.1 = owner ∧ e.2.1 = (name, descriptor)).map (·.2.2)) := by
  rw [project_eq, MappingSet.foldl_addMethod, MappingSet.foldl_addField, carriedMethods_eq]
  change nestedGet? _ owner (name, descriptor) = _
  rw [nestedGet?_foldl, (members_namedTypes c l names).2]
  rfl

end Namesake
