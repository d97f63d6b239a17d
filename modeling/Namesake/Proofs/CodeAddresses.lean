import Mathlib.Data.List.Basic
import Namesake.Code.Walk

/-! # Addresses in a body

A body is a tree of blocks, statements, conditions and instructions. `CodeNode.parts` lists what
stands right inside a node, as the syntax has it and whatever a walk makes of it, and an address
tells the way from a node to a node inside it by the numbers of these parts. Parts are smaller than
what they are part of, which gives induction over a body without regard to the kinds of its nodes
(`CodeNode.induction`).
-/

namespace Namesake

/-- A node of a body. -/
inductive CodeNode where
  | block (statements : List Statement)
  | statement (s : Statement)
  | instruction (i : Instruction)
  | condition (c : Condition)

/-- The parts right inside an instruction. -/
def Instruction.parts : Instruction → List CodeNode
  | .arrayAccess array index => [.instruction array, .instruction index]
  | .cast _ value | .instanceOf _ value | .negative value => [.instruction value]
  | .instanceInvoke _ callee args => .instruction callee :: args.map .instruction
  | .staticInvoke _ args | .new _ _ args => args.map .instruction
  | .multiNewArray _ sizes => sizes.map .instruction
  | .newArray _ size none => [.instruction size]
  | .newArray _ size (some items) => .instruction size :: items.map .instruction
  | .numberCompare left right | .operator _ left right => [.instruction left, .instruction right]
  | .ternary condition thenValue elseValue =>
    [.condition condition, .instruction thenValue, .instruction elseValue]
  | .instanceFieldAccess _ target => [.instruction target]
  | .doubleConstant _ | .floatConstant _ | .intConstant _ | .longConstant _ | .nullConstant
  | .stringConstant _ | .typeConstant _ | .dynamicInvoke .. | .localAccess _
  | .staticFieldAccess _ => []

/-- The parts right inside a condition. -/
def Condition.parts : Condition → List CodeNode
  | .boolean value => [.instruction value]
  | .and operands | .or operands => operands.map .condition
  | .inverse operand => [.condition operand]
  | .compare _ left right => [.instruction left, .instruction right]

/-- The parts right inside a statement. Steps of a counting loop and whatever is evaluated come
before the blocks. -/
def Statement.parts : Statement → List CodeNode
  | .arrayAssignment array index value =>
    [.instruction array, .instruction index, .instruction value]
  | .instanceFieldAssignment _ target value => [.instruction target, .instruction value]
  | .staticFieldAssignment _ value | .localAssignment _ value | .throwValue value
  | .invoke value => [.instruction value]
  | .returnValue value => value.toList.map .instruction
  | .doWhile condition body | .whileLoop condition body => [.condition condition, .block body]
  | .forLoop first condition next body =>
    first.toList.map .statement ++ condition.toList.map .condition ++
      next.toList.map .statement ++ [.block body]
  | .forEach _ collection body => [.instruction collection, .block body]
  | .ifElse condition body elifs last =>
    .condition condition :: elifs.map (.condition ·.condition) ++
      .block body :: elifs.map (.block ·.body) ++ last.toList.map .block
  | .switchOn value cases => .instruction value :: cases.map (.block ·.body)
  | .tryCatch body catches => .block body :: catches.map (.block ·.body)
  | .breakLoop | .comment _ | .increment .. => []

namespace CodeNode

/-- The parts right inside a node. -/
def parts : CodeNode → List CodeNode
  | block statements => statements.map .statement
  | statement s => s.parts
  | instruction i => i.parts
  | condition c => c.parts

/-- The node at an address: the number of a part, then that of a part inside it, and so on. -/
def at? : CodeNode → List Nat → Option CodeNode
  | n, [] => some n
  | n, k :: address => n.parts[k]? >>= fun part => part.at? address

/-! ## Parts are smaller -/

private theorem Elif.sizeOf_lt (e : Elif) :
    sizeOf e.condition < sizeOf e ∧ sizeOf e.body < sizeOf e := by
  cases e
  simp only [Elif.condition, Elif.body, Elif.mk.sizeOf_spec]
  omega

private theorem Case.sizeOf_lt (c : Case) : sizeOf c.body < sizeOf c := by
  cases c
  simp only [Case.body, Case.mk.sizeOf_spec]
  omega

private theorem CatchBlock.sizeOf_lt (c : CatchBlock) : sizeOf c.body < sizeOf c := by
  cases c
  simp only [CatchBlock.body, CatchBlock.mk.sizeOf_spec]
  omega

theorem sizeOf_lt_of_mem_parts {n part : CodeNode} (inside : part ∈ n.parts) :
    sizeOf part < sizeOf n := by
  cases n with
  | block b =>
      obtain ⟨s, member, rfl⟩ := List.mem_map.mp inside
      grind [→ List.sizeOf_lt_of_mem]
  | instruction i =>
      cases i
      case newArray element size initial =>
        cases initial <;> simp [parts, Instruction.parts] at inside <;>
          grind [→ List.sizeOf_lt_of_mem]
      all_goals
        simp [parts, Instruction.parts] at inside <;> grind [→ List.sizeOf_lt_of_mem]
  | condition c =>
      cases c <;> simp [parts, Condition.parts] at inside <;> grind [→ List.sizeOf_lt_of_mem]
  | statement s =>
      cases s
      case forLoop first condition next body =>
        cases first <;> cases condition <;> cases next <;>
          simp [parts, Statement.parts] at inside <;> grind
      case returnValue value =>
        obtain ⟨i, held, rfl⟩ := List.mem_map.mp inside
        obtain rfl := Option.mem_toList.mp held
        grind
      case ifElse condition body elifs last =>
        cases last <;> simp [parts, Statement.parts] at inside <;>
          grind [→ List.sizeOf_lt_of_mem, Elif.sizeOf_lt]
      all_goals
        simp [parts, Statement.parts] at inside <;>
          grind [→ List.sizeOf_lt_of_mem, Case.sizeOf_lt, CatchBlock.sizeOf_lt]

/-- Induction over the parts of a body. -/
theorem induction {motive : CodeNode → Prop}
    (step : ∀ n, (∀ part ∈ n.parts, motive part) → motive n) (n : CodeNode) : motive n :=
  step n fun part _inside => induction step part
termination_by sizeOf n
decreasing_by exact sizeOf_lt_of_mem_parts _inside

end CodeNode

/-! ## Steps of counting loops -/

/-- The first and next steps of a counting loop. -/
def Statement.steps : Statement → List Statement
  | .forLoop first _ next _ => first.toList ++ next.toList
  | _ => []

namespace CodeNode

/-- Of a statement, the statements right inside it are the steps of a loop. -/
theorem statement_mem_parts_iff {s step : Statement} :
    statement step ∈ (statement s).parts ↔ step ∈ s.steps := by
  cases s
  case forLoop first condition next body =>
    cases first <;> cases condition <;> cases next <;>
      simp [parts, Statement.parts, Statement.steps]
  case ifElse condition body elifs last =>
    cases last <;> simp [parts, Statement.parts, Statement.steps]
  case returnValue value =>
    cases value <;> simp [parts, Statement.parts, Statement.steps]
  all_goals simp [parts, Statement.parts, Statement.steps]

/-- Blocks stand right inside a statement. -/
theorem block_mem_parts_iff {s : Statement} {b : List Statement} :
    block b ∈ (statement s).parts ↔ b ∈ s.blocks := by
  cases s
  case forLoop first condition next body =>
    cases first <;> cases condition <;> cases next <;>
      simp [parts, Statement.parts, Statement.blocks]
  case ifElse condition body elifs last =>
    cases last <;> simp [parts, Statement.parts, Statement.blocks, eq_comm]
  case returnValue value =>
    cases value <;> simp [parts, Statement.parts, Statement.blocks]
  all_goals simp [parts, Statement.parts, Statement.blocks, eq_comm]

end CodeNode

end Namesake
