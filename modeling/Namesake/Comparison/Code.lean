import Namesake.Comparison.Names

/-! # Comparing bodies

Two bodies are walked in step. Pieces of different kinds differ; constants of a kind always agree;
comments and increments never do, as they tell nothing. A block agrees with any block that goes on
where it ends.
-/

namespace Namesake.Comparison

variable (old new : Program)

mutual

/-- Compare two instructions. -/
def instructions : Instruction → Instruction → Comparison
  | .arrayAccess array index, .arrayAccess array' index' =>
    instructions array array' ++ instructions index index'
  | .cast type value, .cast type' value' =>
    typeSigs old new type type' ++ instructions value value'
  | .doubleConstant _, .doubleConstant _ | .floatConstant _, .floatConstant _
  | .intConstant _, .intConstant _ | .longConstant _, .longConstant _
  | .nullConstant, .nullConstant | .stringConstant _, .stringConstant _ => []
  | .typeConstant type, .typeConstant type' => typeSigs old new type type'
  | .dynamicInvoke type closure, .dynamicInvoke type' closure' =>
    typeSigs old new type type' ++ typeNames old new closure.owner closure'.owner
  | .instanceInvoke method callee args, .instanceInvoke method' callee' args' =>
    methodRefs old new old.findMethod? new.findMethod? method method' ++
      same args.length args'.length ++
      methodDescriptors old new method.descriptor method'.descriptor ++
      instructionLists args args' ++ instructions callee callee'
  | .staticInvoke method args, .staticInvoke method' args' =>
    methodRefs old new old.findStaticMethod? new.findStaticMethod? method method' ++
      same args.length args'.length ++
      methodDescriptors old new method.descriptor method'.descriptor ++ instructionLists args args'
  | .new type constructor args, .new type' constructor' args' =>
    typeSigs old new type type' ++ same args.length args'.length ++
      methodDescriptors old new constructor constructor' ++ instructionLists args args'
  | .instanceOf type value, .instanceOf type' value' =>
    typeSigs old new type type' ++ instructions value value'
  | .multiNewArray type sizes, .multiNewArray type' sizes' =>
    typeSigs old new type type' ++ same sizes.length sizes'.length ++ instructionLists sizes sizes'
  | .newArray element size none, .newArray element' size' none =>
    typeSigs old new element element' ++ instructions size size'
  | .newArray element size (some items), .newArray element' size' (some items') =>
    typeSigs old new element element' ++ instructions size size' ++
      same items.length items'.length ++ instructionLists items items'
  | .newArray element size _, .newArray element' size' _ =>
    typeSigs old new element element' ++ instructions size size' ++ [.differ]
  | .numberCompare left right, .numberCompare left' right' =>
    instructions left left' ++ instructions right right'
  | .ternary condition thenValue elseValue, .ternary condition' thenValue' elseValue' =>
    conditions condition condition' ++ instructions thenValue thenValue' ++
      instructions elseValue elseValue'
  | .negative value, .negative value' => instructions value value'
  | .operator op left right, .operator op' left' right' =>
    same op op' ++ instructions left left' ++ instructions right right'
  | .instanceFieldAccess field target, .instanceFieldAccess field' target' =>
    fieldRefs old new field field' ++ instructions target target'
  | .localAccess slot, .localAccess slot' => locals old new slot slot'
  | .staticFieldAccess field, .staticFieldAccess field' => fieldRefs old new field field'
  | _, _ => [.differ]

/-- Compare two conditions. -/
def conditions : Condition → Condition → Comparison
  | .boolean value, .boolean value' => instructions value value'
  | .and operands, .and operands' | .or operands, .or operands' =>
    same operands.length operands'.length ++ conditionLists operands operands'
  | .inverse operand, .inverse operand' => conditions operand operand'
  | .compare op left right, .compare op' left' right' =>
    same op op' ++ instructions left left' ++ instructions right right'
  | _, _ => [.differ]

/-- Compare instructions one by one, as far as both lists go. -/
def instructionLists : List Instruction → List Instruction → Comparison
  | i :: rest, i' :: rest' => instructions i i' ++ instructionLists rest rest'
  | _, _ => []

/-- Compare conditions one by one, as far as both lists go. -/
def conditionLists : List Condition → List Condition → Comparison
  | c :: rest, c' :: rest' => conditions c c' ++ conditionLists rest rest'
  | _, _ => []

end

/-- Compare two values that may be absent. -/
def optionalInstructions : Option Instruction → Option Instruction → Comparison
  | none, none => []
  | some i, some i' => instructions old new i i'
  | _, _ => [.differ]

/-- Compare two conditions that may be absent. -/
def optionalConditions : Option Condition → Option Condition → Comparison
  | none, none => []
  | some c, some c' => conditions old new c c'
  | _, _ => [.differ]

/-- Compare what two cases of a switch are chosen by. The order of the numbers does not matter. -/
def caseLabels (indices indices' : List Int32) (isDefault isDefault' : Bool) : Comparison :=
  same indices.length indices'.length ++ same (indices'.all indices.contains) true ++
    same isDefault isDefault'

/-- Compare the exceptions two handlers are for, in order. -/
def exceptionTypes (as bs : List String) : Comparison :=
  same as.length bs.length ++ zip (typeNames old new) as bs

mutual

/-- Compare two statements. -/
def statements : Statement → Statement → Comparison
  | .arrayAssignment array index value, .arrayAssignment array' index' value' =>
    instructions old new array array' ++ instructions old new index index' ++
      instructions old new value value'
  | .instanceFieldAssignment field target value, .instanceFieldAssignment field' target' value' =>
    fieldRefs old new field field' ++ instructions old new target target' ++
      instructions old new value value'
  | .staticFieldAssignment field value, .staticFieldAssignment field' value' =>
    fieldRefs old new field field' ++ instructions old new value value'
  | .localAssignment slot value, .localAssignment slot' value' =>
    locals old new slot slot' ++ instructions old new value value'
  | .breakLoop, .breakLoop => []
  | .doWhile condition body, .doWhile condition' body' =>
    conditions old new condition condition' ++ blocks body body'
  | .whileLoop condition body, .whileLoop condition' body' =>
    conditions old new condition condition' ++ blocks body body'
  | .forLoop first condition next body, .forLoop first' condition' next' body' =>
    (match first, first' with
      | none, none => []
      | some s, some s' => statements s s'
      | _, _ => [.differ]) ++
    optionalConditions old new condition condition' ++
    (match next, next' with
      | none, none => []
      | some s, some s' => statements s s'
      | _, _ => [.differ]) ++
    blocks body body'
  | .forEach slot collection body, .forEach slot' collection' body' =>
    instructions old new collection collection' ++ locals old new slot slot' ++ blocks body body'
  | .ifElse condition body elifs elseBody, .ifElse condition' body' elifs' elseBody' =>
    conditions old new condition condition' ++ blocks body body' ++
      same elifs.length elifs'.length ++ elifLists elifs elifs' ++
      (match elseBody, elseBody' with
        | none, none => []
        | some last, some last' => blocks last last'
        | _, _ => [.differ])
  | .switchOn value cases, .switchOn value' cases' =>
    instructions old new value value' ++ same cases.length cases'.length ++ caseLists cases cases'
  | .tryCatch body catches, .tryCatch body' catches' =>
    blocks body body' ++ same catches.length catches'.length ++ catchLists catches catches'
  | .returnValue value, .returnValue value' => optionalInstructions old new value value'
  | .throwValue value, .throwValue value' => instructions old new value value'
  | .invoke value, .invoke value' => instructions old new value value'
  | _, _ => [.differ]

/-- Compare two blocks. Every old statement needs a counterpart, further new ones do not matter. -/
def blocks : List Statement → List Statement → Comparison
  | [], _ => []
  | _ :: _, [] => [.differ]
  | s :: rest, s' :: rest' => statements s s' ++ blocks rest rest'

def elifLists : List Elif → List Elif → Comparison
  | .mk condition body :: rest, .mk condition' body' :: rest' =>
    conditions old new condition condition' ++ blocks body body' ++ elifLists rest rest'
  | _, _ => []

def caseLists : List Case → List Case → Comparison
  | .mk indices isDefault body :: rest, .mk indices' isDefault' body' :: rest' =>
    caseLabels indices indices' isDefault isDefault' ++ blocks body body' ++ caseLists rest rest'
  | _, _ => []

def catchLists : List CatchBlock → List CatchBlock → Comparison
  | .mk exceptions slot body :: rest, .mk exceptions' slot' body' :: rest' =>
    exceptionTypes old new exceptions exceptions' ++ locals old new slot slot' ++
      blocks body body' ++ catchLists rest rest'
  | _, _ => []

end

/-- Compare two methods: their results, their parameters if there are equally many, and their
statements as far as both bodies go. -/
def methods (a b : MethodEntry) : Comparison :=
  typeSigs old new a.signature.ret b.signature.ret ++
    (if a.signature.params.length = b.signature.params.length then
      zip (typeSigs old new) a.signature.params b.signature.params
    else []) ++
    zip (statements old new) a.statements b.statements

/-- Compare two fields by their types. -/
def fields (a b : FieldEntry) : Comparison := typeSigs old new a.type b.type

end Namesake.Comparison
