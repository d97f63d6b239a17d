import Namesake.Proofs.ComparisonBallots
import Namesake.Proofs.TracedIndexes

/-! # What comparisons are looked up for

A comparison looks up the members that references lead to, and nothing else. The traced comparisons
follow the plain ones piece by piece. They start from owners that are found by name, so between two
coherent programs they stay in range whatever code is compared (`Traced.inRange_compareMethods`).
-/

namespace Namesake.Traced

open Comparison (same typePair? typeNames typeSigs methodDescriptors locals caseLabels
  exceptionTypes)

/-- Checks that take no lookup. -/
abbrev checks (c : Comparison) : Traced Comparison := pure c

/-- The checks of two pieces, one piece after the other. -/
instance : Append (Traced Comparison) := ⟨fun x y => do return (← x) ++ (← y)⟩

@[simp]
theorem value_append (x y : Traced Comparison) : (x ++ y).value = x.value ++ y.value := rfl

@[simp]
theorem inRange_append {x y : Traced Comparison} : (x ++ y).InRange ↔ x.InRange ∧ y.InRange := by
  change (do return (← x) ++ (← y) : Traced Comparison).InRange ↔ _
  simp

variable (old new : Program)

/-! ## References -/

def fieldRefs (a b : MemberRef) : Traced Comparison :=
  match typePair? old new a.owner b.owner with
  | none => pure (same a.owner b.owner ++ same a.name b.name)
  | some (o, n) => do
    let f? ← findField? old o a.name
    let g? ← findField? new n b.name
    return .ballot (.type o n) ::
      match f?, g? with
      | some f, some g => [.ballot (.field f g)]
      | _, _ => same a.name b.name

def methodRefs (findOld findNew : TypeId → String → String → Traced (Option MethodId))
    (a b : MemberRef) : Traced Comparison :=
  match typePair? old new a.owner b.owner with
  | none => pure (same a.owner b.owner ++ same a.name b.name)
  | some (o, n) => do
    let m? ← findOld o a.name a.descriptor
    let m'? ← findNew n b.name b.descriptor
    return .ballot (.type o n) ::
      match m?, m'? with
      | some m, some m' => [.ballot (.method m m')]
      | _, _ => same a.name b.name

/-! ## Code -/

mutual

def instructions : Instruction → Instruction → Traced Comparison
  | .arrayAccess array index, .arrayAccess array' index' =>
    instructions array array' ++ instructions index index'
  | .cast type value, .cast type' value' =>
    checks (typeSigs old new type type') ++ instructions value value'
  | .doubleConstant _, .doubleConstant _ | .floatConstant _, .floatConstant _
  | .intConstant _, .intConstant _ | .longConstant _, .longConstant _
  | .nullConstant, .nullConstant | .stringConstant _, .stringConstant _ => checks []
  | .typeConstant type, .typeConstant type' => checks (typeSigs old new type type')
  | .dynamicInvoke type closure, .dynamicInvoke type' closure' =>
    checks (typeSigs old new type type' ++ typeNames old new closure.owner closure'.owner)
  | .instanceInvoke method callee args, .instanceInvoke method' callee' args' =>
    methodRefs old new (findMethod? old) (findMethod? new) method method' ++
      checks (same args.length args'.length ++
        methodDescriptors old new method.descriptor method'.descriptor) ++
      instructionLists args args' ++ instructions callee callee'
  | .staticInvoke method args, .staticInvoke method' args' =>
    methodRefs old new (findStaticMethod? old) (findStaticMethod? new) method method' ++
      checks (same args.length args'.length ++
        methodDescriptors old new method.descriptor method'.descriptor) ++
      instructionLists args args'
  | .new type constructor args, .new type' constructor' args' =>
    checks (typeSigs old new type type' ++ same args.length args'.length ++
      methodDescriptors old new constructor constructor') ++ instructionLists args args'
  | .instanceOf type value, .instanceOf type' value' =>
    checks (typeSigs old new type type') ++ instructions value value'
  | .multiNewArray type sizes, .multiNewArray type' sizes' =>
    checks (typeSigs old new type type' ++ same sizes.length sizes'.length) ++
      instructionLists sizes sizes'
  | .newArray element size none, .newArray element' size' none =>
    checks (typeSigs old new element element') ++ instructions size size'
  | .newArray element size (some items), .newArray element' size' (some items') =>
    checks (typeSigs old new element element') ++ instructions size size' ++
      checks (same items.length items'.length) ++ instructionLists items items'
  | .newArray element size _, .newArray element' size' _ =>
    checks (typeSigs old new element element') ++ instructions size size' ++ checks [.differ]
  | .numberCompare left right, .numberCompare left' right' =>
    instructions left left' ++ instructions right right'
  | .ternary condition thenValue elseValue, .ternary condition' thenValue' elseValue' =>
    conditions condition condition' ++ instructions thenValue thenValue' ++
      instructions elseValue elseValue'
  | .negative value, .negative value' => instructions value value'
  | .operator op left right, .operator op' left' right' =>
    checks (same op op') ++ instructions left left' ++ instructions right right'
  | .instanceFieldAccess field target, .instanceFieldAccess field' target' =>
    fieldRefs old new field field' ++ instructions target target'
  | .localAccess slot, .localAccess slot' => checks (locals old new slot slot')
  | .staticFieldAccess field, .staticFieldAccess field' => fieldRefs old new field field'
  | _, _ => checks [.differ]

def conditions : Condition → Condition → Traced Comparison
  | .boolean value, .boolean value' => instructions value value'
  | .and operands, .and operands' | .or operands, .or operands' =>
    checks (same operands.length operands'.length) ++ conditionLists operands operands'
  | .inverse operand, .inverse operand' => conditions operand operand'
  | .compare op left right, .compare op' left' right' =>
    checks (same op op') ++ instructions left left' ++ instructions right right'
  | _, _ => checks [.differ]

def instructionLists : List Instruction → List Instruction → Traced Comparison
  | i :: rest, i' :: rest' => instructions i i' ++ instructionLists rest rest'
  | _, _ => checks []

def conditionLists : List Condition → List Condition → Traced Comparison
  | c :: rest, c' :: rest' => conditions c c' ++ conditionLists rest rest'
  | _, _ => checks []

end

def optionalInstructions : Option Instruction → Option Instruction → Traced Comparison
  | none, none => checks []
  | some i, some i' => instructions old new i i'
  | _, _ => checks [.differ]

def optionalConditions : Option Condition → Option Condition → Traced Comparison
  | none, none => checks []
  | some c, some c' => conditions old new c c'
  | _, _ => checks [.differ]

mutual

def statements : Statement → Statement → Traced Comparison
  | .arrayAssignment array index value, .arrayAssignment array' index' value' =>
    instructions old new array array' ++ instructions old new index index' ++
      instructions old new value value'
  | .instanceFieldAssignment field target value, .instanceFieldAssignment field' target' value' =>
    fieldRefs old new field field' ++ instructions old new target target' ++
      instructions old new value value'
  | .staticFieldAssignment field value, .staticFieldAssignment field' value' =>
    fieldRefs old new field field' ++ instructions old new value value'
  | .localAssignment slot value, .localAssignment slot' value' =>
    checks (locals old new slot slot') ++ instructions old new value value'
  | .breakLoop, .breakLoop => checks []
  | .doWhile condition body, .doWhile condition' body' =>
    conditions old new condition condition' ++ blocks body body'
  | .whileLoop condition body, .whileLoop condition' body' =>
    conditions old new condition condition' ++ blocks body body'
  | .forLoop first condition next body, .forLoop first' condition' next' body' =>
    (match first, first' with
      | none, none => checks []
      | some s, some s' => statements s s'
      | _, _ => checks [.differ]) ++
    optionalConditions old new condition condition' ++
    (match next, next' with
      | none, none => checks []
      | some s, some s' => statements s s'
      | _, _ => checks [.differ]) ++
    blocks body body'
  | .forEach slot collection body, .forEach slot' collection' body' =>
    instructions old new collection collection' ++ checks (locals old new slot slot') ++
      blocks body body'
  | .ifElse condition body elifs elseBody, .ifElse condition' body' elifs' elseBody' =>
    conditions old new condition condition' ++ blocks body body' ++
      checks (same elifs.length elifs'.length) ++ elifLists elifs elifs' ++
      (match elseBody, elseBody' with
        | none, none => checks []
        | some last, some last' => blocks last last'
        | _, _ => checks [.differ])
  | .switchOn value cases, .switchOn value' cases' =>
    instructions old new value value' ++ checks (same cases.length cases'.length) ++
      caseLists cases cases'
  | .tryCatch body catches, .tryCatch body' catches' =>
    blocks body body' ++ checks (same catches.length catches'.length) ++
      catchLists catches catches'
  | .returnValue value, .returnValue value' => optionalInstructions old new value value'
  | .throwValue value, .throwValue value' => instructions old new value value'
  | .invoke value, .invoke value' => instructions old new value value'
  | _, _ => checks [.differ]

def blocks : List Statement → List Statement → Traced Comparison
  | [], _ => checks []
  | _ :: _, [] => checks [.differ]
  | s :: rest, s' :: rest' => statements s s' ++ blocks rest rest'

def elifLists : List Elif → List Elif → Traced Comparison
  | .mk condition body :: rest, .mk condition' body' :: rest' =>
    conditions old new condition condition' ++ blocks body body' ++ elifLists rest rest'
  | _, _ => checks []

def caseLists : List Case → List Case → Traced Comparison
  | .mk indices isDefault body :: rest, .mk indices' isDefault' body' :: rest' =>
    checks (caseLabels indices indices' isDefault isDefault') ++ blocks body body' ++
      caseLists rest rest'
  | _, _ => checks []

def catchLists : List CatchBlock → List CatchBlock → Traced Comparison
  | .mk exceptions slot body :: rest, .mk exceptions' slot' body' :: rest' =>
    checks (exceptionTypes old new exceptions exceptions' ++ locals old new slot slot') ++
      blocks body body' ++ catchLists rest rest'
  | _, _ => checks []

end

def compareMethods (a b : MethodEntry) : Traced Comparison :=
  checks (typeSigs old new a.signature.ret b.signature.ret ++
    (if a.signature.params.length = b.signature.params.length then
      Comparison.zip (typeSigs old new) a.signature.params b.signature.params
    else [])) ++
    (a.statements.zip b.statements).flatMapM fun (s, s') => statements old new s s'

/-! ### Values -/

@[simp]
theorem value_fieldRefs (a b : MemberRef) :
    (fieldRefs old new a b).value = Comparison.fieldRefs old new a b := by
  unfold fieldRefs Comparison.fieldRefs
  cases typePair? old new a.owner b.owner with
  | none => rfl
  | some pair =>
      rw [value_bind, value_bind, value_findField?, value_findField?]
      rfl

theorem value_methodRefs {findOld findNew : TypeId → String → String → Traced (Option MethodId)}
    (a b : MemberRef) :
    (methodRefs old new findOld findNew a b).value =
      Comparison.methodRefs old new (fun t n d => (findOld t n d).value)
        (fun t n d => (findNew t n d).value) a b := by
  unfold methodRefs Comparison.methodRefs
  cases typePair? old new a.owner b.owner <;> rfl

theorem value_values :
    (∀ i i', (instructions old new i i').value = Comparison.instructions old new i i') ∧
    (∀ x y, (conditions old new x y).value = Comparison.conditions old new x y) ∧
    (∀ xs ys, (conditionLists old new xs ys).value = Comparison.conditionLists old new xs ys) ∧
    ∀ is js, (instructionLists old new is js).value =
      Comparison.instructionLists old new is js := by
  apply Comparison.instructions.mutual_induct
  all_goals
    intros
    simp [*, instructions, conditions, conditionLists, instructionLists, value_methodRefs,
      Comparison.instructions, Comparison.conditions, Comparison.conditionLists,
      Comparison.instructionLists]

@[simp]
theorem value_optionalInstructions (a b : Option Instruction) :
    (optionalInstructions old new a b).value = Comparison.optionalInstructions old new a b := by
  cases a <;> cases b <;>
    simp [optionalInstructions, Comparison.optionalInstructions, value_values old new]

@[simp]
theorem value_optionalConditions (a b : Option Condition) :
    (optionalConditions old new a b).value = Comparison.optionalConditions old new a b := by
  cases a <;> cases b <;>
    simp [optionalConditions, Comparison.optionalConditions, value_values old new]

@[simp]
theorem value_statements (s s' : Statement) :
    (statements old new s s').value = Comparison.statements old new s s' := by
  have values := (value_values old new).1
  have tests := (value_values old new).2.1
  have all : (∀ s s', (statements old new s s').value = Comparison.statements old new s s') ∧
      (∀ cs cs', (catchLists old new cs cs').value = Comparison.catchLists old new cs cs') ∧
      (∀ ss ss', (blocks old new ss ss').value = Comparison.blocks old new ss ss') ∧
      (∀ cs cs', (caseLists old new cs cs').value = Comparison.caseLists old new cs cs') ∧
      ∀ es es', (elifLists old new es es').value = Comparison.elifLists old new es es' := by
    apply Comparison.statements.mutual_induct
    -- the optional parts of a loop or a conditional decide which of them are compared
    case case8 =>
      intro first condition next body first' condition' next' body' start step inner
      cases first <;> cases first' <;> cases next <;> cases next' <;>
        simp [*, statements, Comparison.statements]
    case case10 =>
      intro condition body elifs last condition' body' elifs' last' inner others final
      cases last <;> cases last' <;> simp [*, statements, Comparison.statements]
    all_goals
      intros
      simp [*, statements, blocks, elifLists, caseLists, catchLists, Comparison.statements,
        Comparison.blocks, Comparison.elifLists, Comparison.caseLists, Comparison.catchLists]
  exact all.1 s s'

@[simp]
theorem value_compareMethods (a b : MethodEntry) :
    (compareMethods old new a b).value = Comparison.methods old new a b := by
  simp [compareMethods, Comparison.methods, Comparison.zip]

/-! ### In range -/

section

variable {old new : Program} (ofOld : old.Coherent) (ofNew : new.Coherent)

include ofOld ofNew

theorem inRange_fieldRefs (a b : MemberRef) : (fieldRefs old new a b).InRange := by
  unfold fieldRefs
  split
  · exact inRange_pure _
  · next pair =>
    obtain ⟨inOld, inNew⟩ := Comparison.hasType_of_typePair? ofOld ofNew pair
    rw [inRange_bind, inRange_bind]
    exact ⟨inRange_findField? ofOld inOld _, inRange_findField? ofNew inNew _, inRange_pure _⟩

theorem inRange_methodRefs
    {findOld findNew : TypeId → String → String → Traced (Option MethodId)}
    (foundOld : ∀ t n d, old.HasType t → (findOld t n d).InRange)
    (foundNew : ∀ t n d, new.HasType t → (findNew t n d).InRange) (a b : MemberRef) :
    (methodRefs old new findOld findNew a b).InRange := by
  unfold methodRefs
  split
  · exact inRange_pure _
  · next pair =>
    obtain ⟨inOld, inNew⟩ := Comparison.hasType_of_typePair? ofOld ofNew pair
    rw [inRange_bind, inRange_bind]
    exact ⟨foundOld _ _ _ inOld, foundNew _ _ _ inNew, inRange_pure _⟩

/-- Values and conditions are compared inside both programs. -/
theorem inRange_values :
    (∀ i i', (instructions old new i i').InRange) ∧ (∀ x y, (conditions old new x y).InRange) ∧
    (∀ xs ys, (conditionLists old new xs ys).InRange) ∧
    ∀ is js, (instructionLists old new is js).InRange := by
  have fields := inRange_fieldRefs ofOld ofNew
  have methods := inRange_methodRefs ofOld ofNew
    (fun _ n d inside => inRange_findMethod? ofOld inside n d)
    (fun _ n d inside => inRange_findMethod? ofNew inside n d)
  have staticMethods := inRange_methodRefs ofOld ofNew
    (fun _ n d inside => inRange_findStaticMethod? ofOld inside n d)
    (fun _ n d inside => inRange_findStaticMethod? ofNew inside n d)
  apply Comparison.instructions.mutual_induct
  all_goals
    intros
    simp [*, instructions, conditions, conditionLists, instructionLists]

theorem inRange_optionalInstructions (a b : Option Instruction) :
    (optionalInstructions old new a b).InRange := by
  cases a <;> cases b <;> simp [optionalInstructions, inRange_values ofOld ofNew]

theorem inRange_optionalConditions (a b : Option Condition) :
    (optionalConditions old new a b).InRange := by
  cases a <;> cases b <;> simp [optionalConditions, inRange_values ofOld ofNew]

/-- Statements are compared inside both programs. -/
theorem inRange_statements (s s' : Statement) : (statements old new s s').InRange := by
  have values := (inRange_values ofOld ofNew).1
  have tests := (inRange_values ofOld ofNew).2.1
  have fields := inRange_fieldRefs ofOld ofNew
  have optionalValues := inRange_optionalInstructions ofOld ofNew
  have optionalTests := inRange_optionalConditions ofOld ofNew
  have all : (∀ s s', (statements old new s s').InRange) ∧
      (∀ cs cs', (catchLists old new cs cs').InRange) ∧
      (∀ ss ss', (blocks old new ss ss').InRange) ∧
      (∀ cs cs', (caseLists old new cs cs').InRange) ∧
      ∀ es es', (elifLists old new es es').InRange := by
    apply Comparison.statements.mutual_induct
    -- as above, the optional parts decide which of them are compared
    case case8 =>
      intro first condition next body first' condition' next' body' start step inner
      cases first <;> cases first' <;> cases next <;> cases next' <;> simp [*, statements]
    case case10 =>
      intro condition body elifs last condition' body' elifs' last' inner others final
      cases last <;> cases last' <;> simp [*, statements]
    all_goals
      intros
      simp [*, statements, blocks, elifLists, caseLists, catchLists]
  exact all.1 s s'

theorem inRange_compareMethods (a b : MethodEntry) : (compareMethods old new a b).InRange := by
  rw [compareMethods, inRange_append, inRange_flatMapM]
  exact ⟨inRange_pure _, fun pair _ => inRange_statements ofOld ofNew pair.1 pair.2⟩

end

end Namesake.Traced
