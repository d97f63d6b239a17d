import Namesake.Comparison.Code
import Namesake.Proofs.LedgerRules
import Namesake.Proofs.Lookups

/-! # Ballots of comparisons

Every ballot a comparison can try is for things that its names and references lead to, so all of
them are part of their programs (`Comparison.IsFormed`). This is shown piece by piece, along the
recursion of the comparison, and holds for any two pieces of code.
-/

namespace Namesake

namespace Context

/-- Both programs are coherent. -/
structure Coherent (c : Context) : Prop where
  old : c.old.program.Coherent
  new : c.new.program.Coherent

end Context

namespace Comparison

/-- All ballots of a comparison are well-formed. -/
def IsFormed (c : Context) (pool : Pool c.old.program c.new.program) (checks : Comparison) : Prop :=
  ∀ b, Check.ballot b ∈ checks → b.IsWellFormed c pool

/-- The ballots that are tried are among the checks. -/
theorem mem_of_mem_verdict {accepted : Ballot → Bool} {checks : Comparison} {b : Ballot}
    (tried : b ∈ (checks.verdict accepted).ballots) : Check.ballot b ∈ checks := by
  induction checks with
  | nil => cases tried
  | cons check rest ih =>
      cases check with
      | differ => cases tried
      | ballot first =>
          rw [verdict] at tried
          split_ifs at tried
          · rcases List.mem_cons.mp tried with rfl | later
            · exact List.mem_cons_self
            · exact List.mem_cons_of_mem _ (ih later)
          · obtain rfl := List.mem_singleton.mp tried
            exact List.mem_cons_self

section

variable {c : Context} {pool : Pool c.old.program c.new.program}

@[simp]
theorem isFormed_nil : IsFormed c pool [] := fun _ member => nomatch member

@[simp]
theorem isFormed_cons_differ {rest : Comparison} :
    IsFormed c pool (.differ :: rest) ↔ IsFormed c pool rest := by
  simp [IsFormed]

@[simp]
theorem isFormed_cons_ballot {b : Ballot} {rest : Comparison} :
    IsFormed c pool (.ballot b :: rest) ↔ b.IsWellFormed c pool ∧ IsFormed c pool rest := by
  simp [IsFormed]

@[simp]
theorem isFormed_append {first second : Comparison} :
    IsFormed c pool (first ++ second) ↔ IsFormed c pool first ∧ IsFormed c pool second := by
  simp only [IsFormed, List.mem_append, or_imp, forall_and]

@[simp]
theorem isFormed_same {α : Type} [DecidableEq α] (a b : α) : IsFormed c pool (same a b) := by
  unfold same
  split_ifs <;> simp

theorem isFormed_zip {α β : Type} {checks : α → β → Comparison}
    (formed : ∀ a b, IsFormed c pool (checks a b)) (as : List α) (bs : List β) :
    IsFormed c pool (zip checks as bs) := by
  intro b member
  obtain ⟨⟨x, y⟩, -, check⟩ := List.mem_flatMap.mp member
  exact formed x y b check

end

/-! ## Names and types -/

/-- Types that are found by their names are part of their programs. -/
theorem hasType_of_typePair? {old new : Program} (ofOld : old.Coherent) (ofNew : new.Coherent)
    {a b : String} {o n : TypeId} (pair : typePair? old new a b = some (o, n)) :
    old.HasType o ∧ new.HasType n := by
  simp only [typePair?, Option.bind_eq_bind, Option.bind_eq_some_iff, Option.pure_def,
    Option.some.injEq, Prod.mk.injEq] at pair
  obtain ⟨o', named, n', named', rfl, rfl⟩ := pair
  exact ⟨(ofOld.named named).1, (ofNew.named named').1⟩

variable {c : Context} (pool : Pool c.old.program c.new.program) (coherent : c.Coherent)

include coherent

theorem inPool_of_typePair? {a b : String} {o n : TypeId}
    (pair : typePair? c.old.program c.new.program a b = some (o, n)) :
    pool.oldType o ∧ pool.type n :=
  (hasType_of_typePair? coherent.old coherent.new pair).imp pool.has_oldType pool.has_type

@[simp]
theorem isFormed_typeNames (a b : String) :
    IsFormed c pool (typeNames c.old.program c.new.program a b) := by
  unfold typeNames
  split
  · next pair =>
    rw [isFormed_cons_ballot]
    exact ⟨inPool_of_typePair? pool coherent pair, isFormed_nil⟩
  · exact isFormed_same a b

theorem isFormed_descriptors (a b : String) :
    IsFormed c pool (descriptors c.old.program c.new.program a b) := by
  unfold descriptors
  split
  · split_ifs
    · split
      · next pair =>
        rw [isFormed_cons_ballot]
        exact ⟨inPool_of_typePair? pool coherent pair, isFormed_nil⟩
      · exact isFormed_same a b
    · exact isFormed_same a b
  · exact isFormed_same a b

theorem isFormed_methodDescriptors (a b : String) :
    IsFormed c pool (methodDescriptors c.old.program c.new.program a b) := by
  unfold methodDescriptors
  rw [isFormed_append, isFormed_append]
  exact ⟨⟨isFormed_same _ _, isFormed_zip (isFormed_descriptors pool coherent) _ _⟩,
    isFormed_descriptors pool coherent _ _⟩

/-- The ballots of two types come from the names in them. -/
theorem isFormed_typeSigs (a b : TypeSig) :
    IsFormed c pool (typeSigs c.old.program c.new.program a b) := by
  have names := isFormed_typeNames pool coherent
  have all : (∀ a b, IsFormed c pool (typeSigs c.old.program c.new.program a b)) ∧
      ∀ as bs, IsFormed c pool (typeArgs c.old.program c.new.program as bs) := by
    apply typeSigs.mutual_induct
    all_goals
      intros
      simp_all [typeSigs, typeArgs]
  exact all.1 a b

theorem isFormed_locals (a b : Local) :
    IsFormed c pool (locals c.old.program c.new.program a b) := by
  unfold locals optionalTypes
  split
  · exact isFormed_nil
  · exact isFormed_typeSigs pool coherent _ _
  · simp

/-- The owners and fields two references lead to are part of their programs. -/
theorem isFormed_fieldRefs (a b : MemberRef) :
    IsFormed c pool (fieldRefs c.old.program c.new.program a b) := by
  unfold fieldRefs
  split
  · simp
  · next pair =>
    rw [isFormed_cons_ballot]
    refine ⟨inPool_of_typePair? pool coherent pair, ?_⟩
    split
    · next f g old new =>
      rw [isFormed_cons_ballot]
      exact ⟨⟨coherent.old.hasField_of_findField? old,
        pool.has_field (coherent.new.hasField_of_findField? new)⟩, isFormed_nil⟩
    · exact isFormed_same _ _

/-- The owners and methods two references lead to are part of their programs, however methods are
found. -/
theorem isFormed_methodRefs (findOld findNew : TypeId → String → String → Option MethodId)
    (foundOld : ∀ {t name descriptor m}, findOld t name descriptor = some m →
      c.old.program.HasMethod m)
    (foundNew : ∀ {t name descriptor m}, findNew t name descriptor = some m →
      c.new.program.HasMethod m) (a b : MemberRef) :
    IsFormed c pool (methodRefs c.old.program c.new.program findOld findNew a b) := by
  unfold methodRefs
  split
  · simp
  · next pair =>
    rw [isFormed_cons_ballot]
    refine ⟨inPool_of_typePair? pool coherent pair, ?_⟩
    split
    · next m m' old new =>
      rw [isFormed_cons_ballot]
      exact ⟨⟨foundOld old, pool.has_method (foundNew new)⟩, isFormed_nil⟩
    · exact isFormed_same _ _

/-! ## Code -/

/-- The ballots of two instructions or conditions come from the names and references in them. -/
theorem isFormed_values :
    (∀ i i', IsFormed c pool (instructions c.old.program c.new.program i i')) ∧
    (∀ x y, IsFormed c pool (conditions c.old.program c.new.program x y)) ∧
    (∀ xs ys, IsFormed c pool (conditionLists c.old.program c.new.program xs ys)) ∧
    ∀ is js, IsFormed c pool (instructionLists c.old.program c.new.program is js) := by
  have names := isFormed_typeNames pool coherent
  have types := isFormed_typeSigs pool coherent
  have descriptors := isFormed_methodDescriptors pool coherent
  have slots := isFormed_locals pool coherent
  have fields := isFormed_fieldRefs pool coherent
  have methods := isFormed_methodRefs pool coherent c.old.program.findMethod?
    c.new.program.findMethod? coherent.old.hasMethod_of_findMethod?
    coherent.new.hasMethod_of_findMethod?
  have staticMethods := isFormed_methodRefs pool coherent c.old.program.findStaticMethod?
    c.new.program.findStaticMethod? coherent.old.hasMethod_of_findStaticMethod?
    coherent.new.hasMethod_of_findStaticMethod?
  apply instructions.mutual_induct
  all_goals
    intros
    simp_all [instructions, conditions, conditionLists, instructionLists]

theorem isFormed_optionalInstructions (a b : Option Instruction) :
    IsFormed c pool (optionalInstructions c.old.program c.new.program a b) := by
  unfold optionalInstructions
  split
  · exact isFormed_nil
  · exact (isFormed_values pool coherent).1 _ _
  · simp

theorem isFormed_optionalConditions (a b : Option Condition) :
    IsFormed c pool (optionalConditions c.old.program c.new.program a b) := by
  unfold optionalConditions
  split
  · exact isFormed_nil
  · exact (isFormed_values pool coherent).2.1 _ _
  · simp

theorem isFormed_exceptionTypes (as bs : List String) :
    IsFormed c pool (exceptionTypes c.old.program c.new.program as bs) := by
  unfold exceptionTypes
  rw [isFormed_append]
  exact ⟨isFormed_same _ _, isFormed_zip (isFormed_typeNames pool coherent) _ _⟩

/-- The ballots of two statements come from the names, references and values in them. -/
theorem isFormed_statements (s s' : Statement) :
    IsFormed c pool (statements c.old.program c.new.program s s') := by
  have values := (isFormed_values pool coherent).1
  have tests := (isFormed_values pool coherent).2.1
  have slots := isFormed_locals pool coherent
  have fields := isFormed_fieldRefs pool coherent
  have optionalValues := isFormed_optionalInstructions pool coherent
  have optionalTests := isFormed_optionalConditions pool coherent
  have exceptions := isFormed_exceptionTypes pool coherent
  have all : (∀ s s', IsFormed c pool (statements c.old.program c.new.program s s')) ∧
      (∀ cs cs', IsFormed c pool (catchLists c.old.program c.new.program cs cs')) ∧
      (∀ ss ss', IsFormed c pool (blocks c.old.program c.new.program ss ss')) ∧
      (∀ cs cs', IsFormed c pool (caseLists c.old.program c.new.program cs cs')) ∧
      ∀ es es', IsFormed c pool (elifLists c.old.program c.new.program es es') := by
    apply statements.mutual_induct
    -- the optional parts of a loop or a conditional decide which of them are compared
    case case8 =>
      intro first condition next body first' condition' next' body' start step inner
      cases first <;> cases first' <;> cases next <;> cases next' <;> simp_all [statements]
    case case10 =>
      intro condition body elifs last condition' body' elifs' last' inner others final
      cases last <;> cases last' <;> simp_all [statements]
    all_goals
      intros
      simp_all [statements, blocks, elifLists, caseLists, catchLists, caseLabels]
  exact all.1 s s'

theorem isFormed_methods (a b : MethodEntry) :
    IsFormed c pool (methods c.old.program c.new.program a b) := by
  unfold methods
  rw [isFormed_append, isFormed_append]
  refine ⟨⟨isFormed_typeSigs pool coherent _ _, ?_⟩, ?_⟩
  · split_ifs
    · exact isFormed_zip (isFormed_typeSigs pool coherent) _ _
    · exact isFormed_nil
  · exact isFormed_zip (isFormed_statements pool coherent) _ _

theorem isFormed_fields (a b : FieldEntry) :
    IsFormed c pool (fields c.old.program c.new.program a b) :=
  isFormed_typeSigs pool coherent a.type b.type

end Comparison

end Namesake
