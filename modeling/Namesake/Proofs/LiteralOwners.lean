import Namesake.Proofs.LiteralPairs

/-! # Whose text constants they are

In a valid program every method belongs to one type. A text constant tells a type exactly if some
method of the type has it and no method of another type does, and within a type it tells a method
exactly if that one has it and no other method of the type does
(`Program.literals_tell_sole_owners`). A constant counts once for its owner however often a walk
meets it, so the answers depend only on which constants each method has.
-/

namespace Namesake

/-- The text constants of a body are those a walk meets. -/
theorem Body.mem_stringConstants {body : List Statement} {text : String} :
    text ∈ Body.stringConstants body ↔ .stringConstant text ∈ Body.instructions body := by
  rw [stringConstants, List.mem_filterMap]
  constructor
  · rintro ⟨i, met, kept⟩
    split at kept
    · obtain rfl := Option.some.inj kept
      exact met
    · cases kept
  · intro met
    exact ⟨_, met, rfl⟩

namespace Program

/-- A method of the program belongs to a type. -/
def IsMethodOf (p : Program) (m : MethodId) (t : TypeId) : Prop :=
  p.HasMethod m ∧ (p.method m).owner = t

/-- A walk through the code of a method meets a text constant. -/
def MeetsLiteral (p : Program) (m : MethodId) (text : String) : Prop :=
  .stringConstant text ∈ Body.instructions (p.method m).statements

variable {p q : Program} {t : TypeId} {m : MethodId} {text : String}

theorem mem_literalsOf : text ∈ p.literalsOf m ↔ p.MeetsLiteral m text := Body.mem_stringConstants

/-- A coherent program lists the methods of a type with the type. -/
theorem Coherent.mem_methods (coherent : p.Coherent) :
    m ∈ (p.type t).methods ↔ p.IsMethodOf m t := by
  constructor
  · exact coherent.methodListed
  · rintro ⟨inside, rfl⟩
    exact coherent.methodOwned inside

/-- A text constant tells a method of a type if no other one listed there has it. -/
theorem methodLiterals_eq_some_iff : (p.methodLiterals t).get? text = some m ↔
    (m ∈ (p.type t).methods ∧ text ∈ p.literalsOf m) ∧
      ∀ m' ∈ (p.type t).methods, text ∈ p.literalsOf m' → m' = m := by
  have listed (m : MethodId) : (text, m) ∈ ((p.type t).methods.flatMap fun m =>
      (p.literalsOf m).map fun text => (text, m)) ↔
      m ∈ (p.type t).methods ∧ text ∈ p.literalsOf m := by
    simp only [List.mem_flatMap, List.mem_map, Prod.mk.injEq]
    constructor
    · rintro ⟨m, declared, text, inside, rfl, rfl⟩
      exact ⟨declared, inside⟩
    · rintro ⟨declared, inside⟩
      exact ⟨m, declared, text, inside, rfl, rfl⟩
  rw [methodLiterals, get?_soleOwners_eq_some_iff_alone]
  simp only [listed, and_imp]

/-- In a coherent program a type has the constants of its methods. -/
theorem Coherent.hasLiteral_iff (coherent : p.Coherent) :
    p.HasLiteral t text ↔ ∃ m, p.IsMethodOf m t ∧ p.MeetsLiteral m text := by
  simp only [HasLiteral, coherent.mem_methods, mem_literalsOf]
  constructor
  · rintro ⟨-, has⟩
    exact has
  · rintro ⟨m, owned, met⟩
    have inside : p.HasType t := owned.2 ▸ coherent.hasType_methodOwner owned.1
    exact ⟨inside, m, owned, met⟩

/-- **Text constants tell their sole owners.** In a valid program a constant tells a type exactly if
some method of the type has it and no method of another type does. Among the methods of a type it
tells one exactly if that has it and no other one does. How often a method has a constant, and
where, makes no difference: programs of the same types whose methods have the same constants agree
on both. -/
theorem literals_tell_sole_owners (valid : p.validate = .ok ()) :
    (∀ text t, p.typeLiterals.get? text = some t ↔
      (∃ m, p.IsMethodOf m t ∧ p.MeetsLiteral m text) ∧
        ∀ m t', p.IsMethodOf m t' → p.MeetsLiteral m text → t' = t) ∧
    (∀ t text m, (p.methodLiterals t).get? text = some m ↔
      (p.IsMethodOf m t ∧ p.MeetsLiteral m text) ∧
        ∀ m', p.IsMethodOf m' t → p.MeetsLiteral m' text → m' = m) ∧
    ∀ q : Program, q.types = p.types →
      (∀ m text, q.MeetsLiteral m text ↔ p.MeetsLiteral m text) →
      q.typeLiterals = p.typeLiterals ∧ ∀ t, q.methodLiterals t = p.methodLiterals t := by
  have coherent := coherent_of_validate valid
  refine ⟨?_, ?_, ?_⟩
  · intro text t
    rw [typeLiterals_eq_some_iff, OwnsLiteral]
    simp only [coherent.hasLiteral_iff, forall_exists_index, and_imp]
    exact and_congr_right fun _ => forall_comm
  · intro t text m
    rw [methodLiterals_eq_some_iff]
    simp only [coherent.mem_methods, mem_literalsOf]
  · intro q types met
    have type (t : TypeId) : q.type t = p.type t := by rw [Program.type, types, Program.type]
    have hasType (t : TypeId) : q.HasType t ↔ p.HasType t := by rw [HasType, types, HasType]
    have literals (m : MethodId) (text : String) :
        text ∈ q.literalsOf m ↔ text ∈ p.literalsOf m := by
      rw [mem_literalsOf, mem_literalsOf, met]
    have owns (t : TypeId) (text : String) : q.OwnsLiteral t text ↔ p.OwnsLiteral t text := by
      simp only [OwnsLiteral, HasLiteral, type, hasType, literals]
    refine ⟨?_, fun t => ?_⟩
    · apply SortedMap.ext_get?
      intro text
      apply Option.ext
      intro t
      rw [typeLiterals_eq_some_iff, typeLiterals_eq_some_iff, owns]
    · apply SortedMap.ext_get?
      intro text
      apply Option.ext
      intro m
      rw [methodLiterals_eq_some_iff, methodLiterals_eq_some_iff]
      simp only [type, literals]

/-- Two classes. The first has a method with some texts and one with two further ones; the second
class has one of these, too. -/
def echoing (texts : List String) : Program where
  types := [{ name := "a", kind := .plain, superclass := none, interfaces := [],
              signature := none, enumConstants := [], methods := [⟨0⟩, ⟨1⟩], fields := [] },
            { name := "b", kind := .plain, superclass := none, interfaces := [],
              signature := none, enumConstants := [], methods := [⟨2⟩], fields := [] }]
  methods := [(⟨0⟩, texts), (⟨0⟩, ["both", "two"]), (⟨1⟩, ["two"])].map fun (owner, texts) =>
    { name := "m", descriptor := "()Ljava/lang/String;", isStatic := false, isSynthetic := false,
      signature := ⟨[], .class "java/lang/String" []⟩,
      body := some (texts.map fun text => .returnValue (some (.stringConstant text))), owner }
  fields := []
  byName := .ofList [("a", ⟨0⟩), ("b", ⟨1⟩)]

theorem literalsOf_echoing (texts : List String) : (echoing texts).literalsOf ⟨0⟩ = texts := by
  change Body.stringConstants (texts.map fun text => .returnValue (some (.stringConstant text))) =
    texts
  induction texts with
  | nil => rfl
  | cons text rest ih => exact congrArg (text :: ·) ih

/-- A method has one of its texts three times. -/
def repeating : Program := echoing ["one", "both", "one", "one"]

/-- A text that two methods of a class have is the class's own, and tells neither of the methods;
one that two classes have tells a method of the first, but no class. What the repeated text tells is
the same as where the method has it once. -/
theorem literals_tell_sole_owners_of_repeating :
    repeating.validate = .ok () ∧ repeating.typeLiterals.get? "both" = some ⟨0⟩ ∧
      (∀ m t, repeating.IsMethodOf m t → repeating.MeetsLiteral m "both" → t = ⟨0⟩) ∧
      (repeating.methodLiterals ⟨0⟩).get? "both" = none ∧
      repeating.typeLiterals.get? "two" = none ∧
      (∀ m, repeating.IsMethodOf m ⟨0⟩ → repeating.MeetsLiteral m "two" → m = ⟨1⟩) ∧
      (echoing ["both", "one"]).typeLiterals = repeating.typeLiterals := by
  have valid : repeating.validate = .ok () := rfl
  obtain ⟨types, methods, alike⟩ := literals_tell_sole_owners valid
  have first : repeating.typeLiterals.get? "both" = some ⟨0⟩ := by decide +kernel
  have second : (repeating.methodLiterals ⟨0⟩).get? "two" = some ⟨1⟩ := by decide +kernel
  have once : ∀ m text, (echoing ["both", "one"]).MeetsLiteral m text ↔
      repeating.MeetsLiteral m text := by
    intro m text
    rw [← mem_literalsOf, ← mem_literalsOf]
    obtain ⟨index⟩ := m
    cases index with
    | zero =>
        rw [repeating, literalsOf_echoing, literalsOf_echoing]
        simp only [List.mem_cons, List.not_mem_nil]
        tauto
    | succ index => exact Iff.rfl
  exact ⟨valid, first, ((types _ _).mp first).2, by decide +kernel, by decide +kernel,
    ((methods _ _ _).mp second).2, (alike (echoing ["both", "one"]) rfl once).1⟩

end Program

end Namesake
