import Namesake.Proofs.Exploring
import Namesake.Proofs.Lookups

/-! # What references to members resolve to

Instance methods and fields are looked for along the superclasses of a type, static methods among
all its supertypes. A hierarchy may lead back to where it started, so each search remembers which
types it has been to. It comes to an end all the same (`Search`), and it does not miss anything:
along the superclasses it finds what the nearest type declares that declares something
(`Coherent.chain_eq_some_iff`), among the supertypes it finds something wherever there is something
to find. `Program.resolves_exactly` says so for all three kinds of lookups.
-/

namespace Namesake

/-! ## The first that fits -/

/-- The first of some listed things that is as asked for. -/
def IsFirst {ι : Type} (fits : ι → Prop) (listed : List ι) (x : ι) : Prop :=
  ∃ before after, listed = before ++ x :: after ∧ fits x ∧ ∀ y ∈ before, ¬ fits y

section

variable {ι : Type} {test : ι → Bool} {fits : ι → Prop} {listed : List ι}

theorem find?_eq_some_iff_isFirst (told : ∀ x, test x = true ↔ fits x) {x : ι} :
    listed.find? test = some x ↔ IsFirst fits listed x := by
  rw [List.find?_eq_some_iff_append, told]
  constructor
  · rintro ⟨here, before, after, split, others⟩
    refine ⟨before, after, split, here, ?_⟩
    intro y earlier fit
    have refused := others y earlier
    rw [(told y).mpr fit] at refused
    cases refused
  · rintro ⟨before, after, split, here, others⟩
    refine ⟨here, before, after, split, ?_⟩
    intro y earlier
    rw [Bool.not_eq_true', ← Bool.not_eq_true, told]
    exact others y earlier

end

namespace Program

variable {p : Program}

/-! ## Declared members -/

/-- The first method of a name and descriptor, static or not, that a type declares. -/
def DeclaresMethod (p : Program) (isStatic : Bool) (name descriptor : String) (t : TypeId) :
    MethodId → Prop :=
  IsFirst (fun m => (p.method m).isStatic = isStatic ∧ (p.method m).name = name ∧
    (p.method m).descriptor = descriptor) (p.type t).methods

/-- The first field of a name that a type declares. -/
def DeclaresField (p : Program) (name : String) (t : TypeId) : FieldId → Prop :=
  IsFirst (fun f => (p.field f).name = name) (p.type t).fields

/-- The instance method a type declares itself. -/
def ownMethod? (p : Program) (name descriptor : String) (t : TypeId) : Option MethodId :=
  (p.instanceMethods t).find? (p.isMethod name descriptor)

/-- The static method a type declares itself. -/
def ownStaticMethod? (p : Program) (name descriptor : String) (t : TypeId) : Option MethodId :=
  (p.staticMethods t).find? (p.isMethod name descriptor)

theorem ownMethod?_eq_some_iff {name descriptor : String} {t : TypeId} {m : MethodId} :
    p.ownMethod? name descriptor t = some m ↔ p.DeclaresMethod false name descriptor t m := by
  rw [ownMethod?, instanceMethods, List.find?_filter]
  apply find?_eq_some_iff_isFirst
  simp [isMethod]

theorem ownStaticMethod?_eq_some_iff {name descriptor : String} {t : TypeId} {m : MethodId} :
    p.ownStaticMethod? name descriptor t = some m ↔ p.DeclaresMethod true name descriptor t m := by
  rw [ownStaticMethod?, staticMethods, List.find?_filter]
  apply find?_eq_some_iff_isFirst
  simp [isMethod]

theorem fieldNamed?_eq_some_iff {name : String} {t : TypeId} {f : FieldId} :
    p.fieldNamed? t name = some f ↔ p.DeclaresField name t f := by
  rw [fieldNamed?]
  apply find?_eq_some_iff_isFirst
  simp

/-! ## Along the superclasses -/

/-- The superclass that many steps above a type. -/
def ancestor? (p : Program) (t : TypeId) : Nat → Option TypeId
  | 0 => some t
  | n + 1 => p.ancestor? t n >>= p.superclass?

/-- What the nearest type declares, among a type and its superclasses, that declares anything. -/
def Inherits {ι : Type} (p : Program) (declares : TypeId → ι → Prop) (t : TypeId) (x : ι) : Prop :=
  ∃ n u, p.ancestor? t n = some u ∧ declares u x ∧
    ∀ k < n, ∀ v, p.ancestor? t k = some v → ∀ y, ¬ declares v y

theorem ancestor?_iff_reflTransGen {t u : TypeId} :
    (∃ n, p.ancestor? t n = some u) ↔
      Relation.ReflTransGen (fun a b => b ∈ (p.superclass? a).toList) t u := by
  constructor
  · rintro ⟨n, reached⟩
    induction n generalizing u with
    | zero =>
        obtain rfl := Option.some.inj reached
        exact .refl
    | succ n ih =>
        obtain ⟨v, before, step⟩ := Option.bind_eq_some_iff.mp reached
        exact .tail (ih before) (Option.mem_toList.mpr step)
  · intro path
    induction path with
    | refl => exact ⟨0, rfl⟩
    | tail _ step ih =>
        obtain ⟨n, before⟩ := ih
        exact ⟨n + 1, Option.bind_eq_some_iff.mpr ⟨_, before, Option.mem_toList.mp step⟩⟩

/-- A type inherits one thing at most, if each type declares one thing at most. -/
theorem Inherits.unique {ι : Type} {declares : TypeId → ι → Prop} {t : TypeId} {x y : ι}
    (sole : ∀ u x y, declares u x → declares u y → x = y) (first : p.Inherits declares t x)
    (second : p.Inherits declares t y) : x = y := by
  obtain ⟨n, u, above, declared, nearer⟩ := first
  obtain ⟨n', u', above', declared', nearer'⟩ := second
  rcases Nat.lt_trichotomy n n' with before | rfl | after
  · exact absurd declared (nearer' n before u above x)
  · obtain rfl := Option.some.inj (above.symm.trans above')
    exact sole u x y declared declared'
  · exact absurd declared' (nearer n' after u' above' y)

section

variable {ι : Type} {answer : TypeId → Option ι} {declares : TypeId → ι → Prop} {t : TypeId}

private theorem cons_eq_toList {a : TypeId} {rest : List TypeId} {o : Option TypeId}
    (same : a :: rest = o.toList) : o = some a ∧ rest = [] := by
  cases o with
  | none => cases same
  | some b =>
      obtain ⟨rfl, rfl⟩ := List.cons.inj same
      exact ⟨rfl, rfl⟩

/-- A search that stands at some superclass, with nothing declared before it, ends with what is
inherited. -/
theorem inherits_of_search (told : ∀ {u x}, answer u = some x ↔ declares u x)
    {visited stack : List TypeId} {result : Option ι} {x : ι}
    (search : Search (fun u => (p.superclass? u).toList) answer visited stack result)
    (found : result = some x) {n : Nat} (here : stack = (p.ancestor? t n).toList)
    (nearer : ∀ k < n, ∀ v, p.ancestor? t k = some v → ∀ y, ¬ declares v y) :
    p.Inherits declares t x := by
  induction search generalizing n with
  | exhausted => cases found
  | again _ rest =>
      -- nothing else waits, so the search ends here
      obtain ⟨-, rfl⟩ := cons_eq_toList here
      cases rest
      cases found
  | @answered _ _ u _ _ answers =>
      obtain ⟨above, -⟩ := cons_eq_toList here
      obtain rfl := Option.some.inj found
      exact ⟨n, u, above, told.mp answers, nearer⟩
  | @onward _ _ u _ _ silent _ ih =>
      obtain ⟨above, rfl⟩ := cons_eq_toList here
      refine ih found (n := n + 1) ?_ ?_
      · rw [List.append_nil, ancestor?, above]
        rfl
      · intro k before v reached y declared
        rcases Nat.lt_succ_iff_lt_or_eq.mp before with earlier | rfl
        · exact nearer k earlier v reached y declared
        · obtain rfl := Option.some.inj (above.symm.trans reached)
          rw [told.mpr declared] at silent
          cases silent

namespace Coherent

variable (coherent : p.Coherent)

include coherent

theorem mem_superclasses_inside (a b : TypeId) (above : b ∈ (p.superclass? a).toList) :
    b ∈ t :: p.typeIds :=
  List.mem_cons_of_mem t
    (mem_typeIds.mpr (coherent.hasType_of_superclass? (Option.mem_toList.mp above)))

/-- The chain of superclasses holds those that are some number of steps above. -/
theorem mem_superclassChain_iff {u : TypeId} :
    u ∈ p.superclassChain t ↔ ∃ n, p.ancestor? t n = some u := by
  rw [superclassChain, mem_explore_from coherent.mem_superclasses_inside List.mem_cons_self,
    ancestor?_iff_reflTransGen]

theorem search_superclassChain {result : Option ι} :
    Search (fun u => (p.superclass? u).toList) answer [] [t] result ↔
      result = (p.superclassChain t).findSome? answer :=
  search_iff coherent.mem_superclasses_inside List.mem_cons_self

/-- **The chain of superclasses answers with what is inherited.** -/
theorem chain_eq_some_iff (told : ∀ {u x}, answer u = some x ↔ declares u x) {x : ι} :
    (p.superclassChain t).findSome? answer = some x ↔ p.Inherits declares t x := by
  have sound {y : ι} (found : (p.superclassChain t).findSome? answer = some y) :
      p.Inherits declares t y :=
    inherits_of_search told (coherent.search_superclassChain.mpr found.symm) rfl (n := 0) rfl
      fun k impossible => absurd impossible (Nat.not_lt_zero k)
  refine ⟨sound, ?_⟩
  intro inherited
  have ⟨n, u, above, declared, _⟩ := inherited
  have answered : ((p.superclassChain t).findSome? answer).isSome = true :=
    List.findSome?_isSome_iff.mpr
      ⟨u, coherent.mem_superclassChain_iff.mpr ⟨n, above⟩, Option.isSome_of_mem (told.mpr declared)⟩
  obtain ⟨y, found⟩ := Option.isSome_iff_exists.mp answered
  have sole (u : TypeId) (x y : ι) (first : declares u x) (second : declares u y) : x = y :=
    Option.some.inj ((told.mpr first).symm.trans (told.mpr second))
  have same : x = y := inherited.unique sole (sound found)
  rw [found, same]

/-- It answers nothing exactly if there is nothing to inherit. -/
theorem chain_eq_none_iff (told : ∀ {u x}, answer u = some x ↔ declares u x) :
    (p.superclassChain t).findSome? answer = none ↔
      ∀ n u, p.ancestor? t n = some u → ∀ x, ¬ declares u x := by
  rw [List.findSome?_eq_none_iff]
  simp only [coherent.mem_superclassChain_iff, Option.eq_none_iff_forall_ne_some, ne_eq, told,
    forall_exists_index]
  exact forall_comm

end Coherent

end

/-! ## Among the supertypes -/

/-- A type is reached from another by its superclasses and interfaces, in any number of steps. -/
def Climbs (p : Program) : TypeId → TypeId → Prop :=
  Relation.ReflTransGen fun t u => u ∈ p.supertypes t

namespace Coherent

variable (coherent : p.Coherent) {t : TypeId}

include coherent

theorem mem_supertypes_inside (a b : TypeId)
    (above : b ∈ (p.superclass? a).toList ++ (p.interfaces a).reverse) : b ∈ t :: p.typeIds := by
  apply List.mem_cons_of_mem t
  apply mem_typeIds.mpr
  rcases List.mem_append.mp above with extended | implemented
  · exact coherent.hasType_of_superclass? (Option.mem_toList.mp extended)
  · exact coherent.hasType_of_mem_interfaces (List.mem_reverse.mp implemented)

/-- The closure holds the types that are reached. -/
theorem mem_supertypeClosure_iff {u : TypeId} : u ∈ p.supertypeClosure t ↔ p.Climbs t u := by
  rw [supertypeClosure, mem_explore_from coherent.mem_supertypes_inside List.mem_cons_self, Climbs]
  simp only [supertypes, List.mem_append, List.mem_reverse]

omit coherent in
/-- The type itself comes first. -/
theorem exists_supertypeClosure_eq_cons : ∃ others, p.supertypeClosure t = t :: others := by
  rw [supertypeClosure, explore, dif_pos ⟨List.mem_cons_self, List.not_mem_nil⟩]
  exact ⟨_, rfl⟩

end Coherent

/-! ## Lookups -/

/-- A lookup along the superclasses of a type is exact. -/
structure FindsInherited {ι : Type} (p : Program) (answer : TypeId → Option ι)
    (declares : TypeId → ι → Prop) (t : TypeId) (found : Option ι) : Prop where
  /-- The search ends, and this is its result. -/
  ends : ∀ result, Search (fun u => (p.superclass? u).toList) answer [] [t] result ↔
    result = found
  some_iff : ∀ x, found = some x ↔ p.Inherits declares t x
  none_iff : found = none ↔ ∀ n u, p.ancestor? t n = some u → ∀ x, ¬ declares u x

/-- A lookup among all supertypes of a type is exact up to the choice between several of them. -/
structure FindsReached {ι : Type} (p : Program) (answer : TypeId → Option ι)
    (declares : TypeId → ι → Prop) (t : TypeId) (found : Option ι) : Prop where
  /-- The search ends, and this is its result. -/
  ends : ∀ result,
    Search (fun u => (p.superclass? u).toList ++ (p.interfaces u).reverse) answer [] [t] result ↔
      result = found
  isSome_iff : found.isSome = true ↔ ∃ u x, p.Climbs t u ∧ declares u x
  sound : ∀ x, found = some x → ∃ u, p.Climbs t u ∧ declares u x
  /-- What the type declares itself goes before everything else. -/
  own : ∀ x, declares t x → found = some x

namespace Coherent

variable {ι : Type} {answer : TypeId → Option ι} {declares : TypeId → ι → Prop} {t : TypeId}
  (coherent : p.Coherent)

include coherent

theorem findsInherited (told : ∀ {u x}, answer u = some x ↔ declares u x) :
    p.FindsInherited answer declares t ((p.superclassChain t).findSome? answer) where
  ends _ := coherent.search_superclassChain
  some_iff _ := coherent.chain_eq_some_iff told
  none_iff := coherent.chain_eq_none_iff told

theorem findsReached (told : ∀ {u x}, answer u = some x ↔ declares u x) :
    p.FindsReached answer declares t ((p.supertypeClosure t).findSome? answer) where
  ends _ := search_iff coherent.mem_supertypes_inside List.mem_cons_self
  isSome_iff := by
    rw [List.findSome?_isSome_iff]
    simp only [coherent.mem_supertypeClosure_iff, Option.isSome_iff_exists, told, exists_and_left]
  sound x found := by
    obtain ⟨u, member, answers⟩ := List.exists_of_findSome?_eq_some found
    exact ⟨u, coherent.mem_supertypeClosure_iff.mp member, told.mp answers⟩
  own x declared := by
    obtain ⟨others, first⟩ := exists_supertypeClosure_eq_cons (p := p) (t := t)
    rw [first, List.findSome?_cons, told.mpr declared]

end Coherent

/-- **References resolve exactly**, however the hierarchy of a valid program runs. A lookup of an
instance method or a field finds what the nearest type declares, among a type and its superclasses,
that declares one of the name (and descriptor), the first of them if there are several, and nothing
exactly if none does. A lookup of a static method finds one exactly if a type that is reached by
superclasses and interfaces declares one, and the type's own if it has one. -/
theorem resolves_exactly (valid : p.validate = .ok ()) (t : TypeId) (name descriptor : String) :
    p.FindsInherited (p.ownMethod? name descriptor) (p.DeclaresMethod false name descriptor) t
      (p.findMethod? t name descriptor) ∧
    p.FindsInherited (p.fieldNamed? · name) (p.DeclaresField name) t (p.findField? t name) ∧
    p.FindsReached (p.ownStaticMethod? name descriptor) (p.DeclaresMethod true name descriptor) t
      (p.findStaticMethod? t name descriptor) := by
  have coherent := coherent_of_validate valid
  exact ⟨coherent.findsInherited ownMethod?_eq_some_iff,
    coherent.findsInherited fieldNamed?_eq_some_iff,
    coherent.findsReached ownStaticMethod?_eq_some_iff⟩

/-- Two classes that extend each other. The first declares a method and a field and implements an
interface with a static method. -/
def entwined : Program where
  types := [{ name := "a", kind := .plain, superclass := some "b", interfaces := ["i"],
              signature := none, enumConstants := [], methods := [⟨0⟩], fields := [⟨0⟩] },
            { name := "b", kind := .plain, superclass := some "a", interfaces := [],
              signature := none, enumConstants := [], methods := [], fields := [] },
            { name := "i", kind := .interface, superclass := none, interfaces := [],
              signature := none, enumConstants := [], methods := [⟨1⟩], fields := [] }]
  methods := [{ name := "run", descriptor := "()V", isStatic := false, isSynthetic := false,
                signature := ⟨[], .primitive 'V'⟩, body := none, owner := ⟨0⟩ },
              { name := "make", descriptor := "()V", isStatic := true, isSynthetic := false,
                signature := ⟨[], .primitive 'V'⟩, body := none, owner := ⟨2⟩ }]
  fields := [{ name := "f", descriptor := "I", type := .primitive 'I', isStatic := false,
               owner := ⟨0⟩ }]
  byName := .ofList [("a", ⟨0⟩), ("b", ⟨1⟩), ("i", ⟨2⟩)]

/-- From the second class the members of the first are found one step above, and the static method
of the interface two; a search for an instance method of that name goes round once and ends. -/
theorem resolves_exactly_of_entwined :
    entwined.validate = .ok () ∧ entwined.findMethod? ⟨1⟩ "run" "()V" = some ⟨0⟩ ∧
    entwined.findField? ⟨1⟩ "f" = some ⟨0⟩ ∧
    (entwined.findStaticMethod? ⟨1⟩ "make" "()V").isSome = true ∧
    entwined.findMethod? ⟨1⟩ "make" "()V" = none := by
  have valid : entwined.validate = .ok () := rfl
  obtain ⟨runs, -, -⟩ := resolves_exactly valid ⟨1⟩ "run" "()V"
  obtain ⟨-, fields, -⟩ := resolves_exactly valid ⟨1⟩ "f" ""
  obtain ⟨makes, -, statics⟩ := resolves_exactly valid ⟨1⟩ "make" "()V"
  have fromFirst : entwined.superclass? ⟨0⟩ = some ⟨1⟩ := by decide
  have fromSecond : entwined.superclass? ⟨1⟩ = some ⟨0⟩ := by decide
  -- the second class declares nothing
  have nearer {ι : Type} {declares : TypeId → ι → Prop} (bare : ∀ y, ¬ declares ⟨1⟩ y) :
      ∀ k < 1, ∀ v, entwined.ancestor? ⟨1⟩ k = some v → ∀ y, ¬ declares v y := by
    intro k before v reached
    obtain rfl := Nat.lt_one_iff.mp before
    obtain rfl := Option.some.inj reached
    exact bare
  have none_ {answer : Option MethodId} {fits : MethodId → Prop}
      (told : ∀ {m}, answer = some m ↔ fits m) (silent : answer = none) : ∀ m, ¬ fits m := by
    intro m fit
    rw [told.mpr fit] at silent
    cases silent
  refine ⟨valid, (runs.some_iff _).mpr ?run, (fields.some_iff _).mpr ?field,
    statics.isSome_iff.mpr ?static, makes.none_iff.mpr ?make⟩
  case run =>
    refine ⟨1, ⟨0⟩, fromSecond, ownMethod?_eq_some_iff.mp (by decide), nearer ?_⟩
    exact none_ ownMethod?_eq_some_iff (by decide)
  case field =>
    refine ⟨1, ⟨0⟩, fromSecond, fieldNamed?_eq_some_iff.mp (by decide), nearer ?_⟩
    rintro y ⟨before, after, split, -⟩
    exact List.append_ne_nil_of_right_ne_nil before (List.cons_ne_nil y after) split.symm
  case static =>
    have up : entwined.Climbs ⟨1⟩ ⟨2⟩ := by
      refine .tail (.tail .refl (?_ : ⟨0⟩ ∈ entwined.supertypes ⟨1⟩)) ?_ <;> decide
    exact ⟨⟨2⟩, ⟨1⟩, up, ownStaticMethod?_eq_some_iff.mp (by decide)⟩
  case make =>
    have turns : ∀ n u, entwined.ancestor? ⟨1⟩ n = some u → u = ⟨0⟩ ∨ u = ⟨1⟩ := by
      intro n
      induction n with
      | zero => exact fun u reached => .inr (Option.some.inj reached).symm
      | succ n ih =>
          intro u reached
          obtain ⟨v, before, step⟩ := Option.bind_eq_some_iff.mp reached
          rcases ih v before with rfl | rfl
          · exact .inr (Option.some.inj (step.symm.trans fromFirst))
          · exact .inl (Option.some.inj (step.symm.trans fromSecond))
    intro n u reached
    rcases turns n u reached with rfl | rfl
    · exact none_ ownMethod?_eq_some_iff (by decide)
    · exact none_ ownMethod?_eq_some_iff (by decide)

end Program

end Namesake
