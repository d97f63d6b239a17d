import Namesake.Code.Basic

/-! # Walking a body

Statements are visited before the statements of their blocks, instructions before the instructions
inside them, each in the order of the text. The first and next steps of a counting loop are no
block: they give the instructions they hold directly, and are not visited themselves.
-/

namespace Namesake

mutual

/-- The instructions right inside an instruction, in the order they are evaluated. -/
def Instruction.children : Instruction → List Instruction
  | .arrayAccess array index => [array, index]
  | .cast _ value | .instanceOf _ value | .negative value => [value]
  | .instanceInvoke _ callee args => callee :: args
  | .staticInvoke _ args | .new _ _ args => args
  | .multiNewArray _ sizes => sizes
  | .newArray _ size initial => size :: initial.getD []
  | .numberCompare left right | .operator _ left right => [left, right]
  | .ternary condition thenValue elseValue => condition.instructions ++ [thenValue, elseValue]
  | .instanceFieldAccess _ target => [target]
  | .doubleConstant _ | .floatConstant _ | .intConstant _ | .longConstant _ | .nullConstant
  | .stringConstant _ | .typeConstant _ | .dynamicInvoke .. | .localAccess _
  | .staticFieldAccess _ => []

/-- The instructions a condition compares, at any depth of its own structure. -/
def Condition.instructions : Condition → List Instruction
  | .boolean value => [value]
  | .and operands | .or operands => Condition.listInstructions operands
  | .inverse operand => operand.instructions
  | .compare _ left right => [left, right]

def Condition.listInstructions : List Condition → List Instruction
  | [] => []
  | c :: rest => c.instructions ++ Condition.listInstructions rest

end

mutual

/-- An instruction and everything inside it. -/
def Instruction.walk : Instruction → List Instruction
  | i@(.arrayAccess array index) => i :: array.walk ++ index.walk
  | i@(.cast _ value) | i@(.instanceOf _ value) | i@(.negative value) => i :: value.walk
  | i@(.instanceInvoke _ callee args) => i :: callee.walk ++ Instruction.walkList args
  | i@(.staticInvoke _ args) | i@(.new _ _ args) => i :: Instruction.walkList args
  | i@(.multiNewArray _ sizes) => i :: Instruction.walkList sizes
  | i@(.newArray _ size none) => i :: size.walk
  | i@(.newArray _ size (some items)) => i :: size.walk ++ Instruction.walkList items
  | i@(.numberCompare left right) | i@(.operator _ left right) => i :: left.walk ++ right.walk
  | i@(.ternary condition thenValue elseValue) =>
    i :: condition.walk ++ thenValue.walk ++ elseValue.walk
  | i@(.instanceFieldAccess _ target) => i :: target.walk
  | i@(.doubleConstant _) | i@(.floatConstant _) | i@(.intConstant _) | i@(.longConstant _)
  | i@(.nullConstant) | i@(.stringConstant _) | i@(.typeConstant _) | i@(.dynamicInvoke ..)
  | i@(.localAccess _) | i@(.staticFieldAccess _) => [i]

/-- Everything inside a condition. -/
def Condition.walk : Condition → List Instruction
  | .boolean value => value.walk
  | .and operands | .or operands => Condition.walkList operands
  | .inverse operand => operand.walk
  | .compare _ left right => left.walk ++ right.walk

def Instruction.walkList : List Instruction → List Instruction
  | [] => []
  | i :: rest => i.walk ++ Instruction.walkList rest

def Condition.walkList : List Condition → List Instruction
  | [] => []
  | c :: rest => c.walk ++ Condition.walkList rest

end

namespace Elif

def condition : Elif → Condition
  | mk condition _ => condition

def body : Elif → List Statement
  | mk _ body => body

end Elif

/-- The block of a case. -/
def Case.body : Case → List Statement
  | mk _ _ body => body

/-- The block of a handler. -/
def CatchBlock.body : CatchBlock → List Statement
  | mk _ _ body => body

namespace Statement

/-- The instructions a statement holds itself, not those of its blocks. -/
def instructions : Statement → List Instruction
  | arrayAssignment array index value => [array, index, value]
  | instanceFieldAssignment _ target value => [target, value]
  | staticFieldAssignment _ value | localAssignment _ value | throwValue value | invoke value =>
    [value]
  | returnValue value => value.toList
  | doWhile condition _ | whileLoop condition _ => condition.instructions
  | forLoop first condition next _ =>
    (match first with
      | some s => s.instructions
      | none => []) ++
    (condition.toList.flatMap Condition.instructions) ++
    (match next with
      | some s => s.instructions
      | none => [])
  | forEach _ collection _ => [collection]
  | ifElse condition _ elifs _ =>
    condition.instructions ++ elifs.flatMap fun e => e.condition.instructions
  | switchOn value _ => [value]
  | breakLoop | tryCatch .. | comment _ | increment .. => []

/-- The blocks right inside a statement. -/
def blocks : Statement → List (List Statement)
  | doWhile _ body | forLoop _ _ _ body | forEach _ _ body | whileLoop _ body => [body]
  | ifElse _ body elifs elseBody => body :: elifs.map Elif.body ++ elseBody.toList
  | switchOn _ cases => cases.map Case.body
  | tryCatch body catches => body :: catches.map CatchBlock.body
  | arrayAssignment .. | instanceFieldAssignment .. | staticFieldAssignment .. | localAssignment ..
  | breakLoop | comment _ | increment .. | returnValue _ | throwValue _ | invoke _ => []

mutual

/-- The statements in the blocks of a statement, at any depth. -/
def nested : Statement → List Statement
  | doWhile _ body | forLoop _ _ _ body | forEach _ _ body | whileLoop _ body => walkBlock body
  | ifElse _ body elifs none => walkBlock body ++ walkElifs elifs
  | ifElse _ body elifs (some last) => walkBlock body ++ walkElifs elifs ++ walkBlock last
  | switchOn _ cases => walkCases cases
  | tryCatch body catches => walkBlock body ++ walkCatches catches
  | arrayAssignment .. | instanceFieldAssignment .. | staticFieldAssignment .. | localAssignment ..
  | breakLoop | comment _ | increment .. | returnValue _ | throwValue _ | invoke _ => []

/-- The statements of a block, at any depth. -/
def walkBlock : List Statement → List Statement
  | [] => []
  | s :: rest => s :: s.nested ++ walkBlock rest

def walkElifs : List Elif → List Statement
  | [] => []
  | .mk _ body :: rest => walkBlock body ++ walkElifs rest

def walkCases : List Case → List Statement
  | [] => []
  | .mk _ _ body :: rest => walkBlock body ++ walkCases rest

def walkCatches : List CatchBlock → List Statement
  | [] => []
  | .mk _ _ body :: rest => walkBlock body ++ walkCatches rest

end

end Statement

namespace Body

/-- The statements of a body, at any depth. -/
def statements (body : List Statement) : List Statement := Statement.walkBlock body

/-- The instructions of a body, at any depth. -/
def instructions (body : List Statement) : List Instruction :=
  (statements body).flatMap fun s => s.instructions.flatMap Instruction.walk

/-- The text constants of a body, in the order of their occurrences. -/
def stringConstants (body : List Statement) : List String :=
  (instructions body).filterMap fun
    | .stringConstant value => some value
    | _ => none

end Body

end Namesake
