import Namesake.Json.Basic
import Namesake.Signature.Basic

/-! # Method bodies

A method body is a list of statements. Statements hold instructions, conditions and blocks of
further statements; instructions hold instructions, and a ternary also a condition. References to
fields and methods go by the names of the build.
-/

namespace Namesake

/-- A field or method as a body refers to it. -/
structure MemberRef where
  owner : String
  name : String
  descriptor : String
deriving DecidableEq, Repr, Inhabited

/-- A local variable, with its type where it is known. -/
structure Local where
  index : UInt16
  type : Option TypeSig
deriving DecidableEq, Repr, Inhabited

inductive BinaryOp where
  | add | sub | mul | div | rem | and | or | xor | shl | shr | ushr
deriving DecidableEq, Repr, Inhabited

inductive CompareOp where
  | eq | ne | lt | le | gt | ge
deriving DecidableEq, Repr, Inhabited

mutual

/-- A computation of a value. -/
inductive Instruction where
  | arrayAccess (array index : Instruction)
  | cast (type : TypeSig) (value : Instruction)
  | doubleConstant (value : Decimal)
  | floatConstant (value : Decimal)
  | intConstant (value : Int32)
  | longConstant (value : Int64)
  | nullConstant
  | stringConstant (value : String)
  | typeConstant (type : TypeSig)
  /-- The making of a closure over a method. -/
  | dynamicInvoke (type : TypeSig) (closure : MemberRef)
  | instanceInvoke (method : MemberRef) (callee : Instruction) (args : List Instruction)
  | staticInvoke (method : MemberRef) (args : List Instruction)
  | new (type : TypeSig) (constructor : String) (args : List Instruction)
  | instanceOf (type : TypeSig) (value : Instruction)
  | multiNewArray (type : TypeSig) (sizes : List Instruction)
  | newArray (element : TypeSig) (size : Instruction) (initial : Option (List Instruction))
  | numberCompare (left right : Instruction)
  | ternary (condition : Condition) (thenValue elseValue : Instruction)
  | negative (value : Instruction)
  | operator (op : BinaryOp) (left right : Instruction)
  | instanceFieldAccess (field : MemberRef) (target : Instruction)
  | localAccess (slot : Local)
  | staticFieldAccess (field : MemberRef)

/-- A test. -/
inductive Condition where
  | boolean (value : Instruction)
  | and (operands : List Condition)
  | or (operands : List Condition)
  | inverse (operand : Condition)
  | compare (op : CompareOp) (left right : Instruction)

end

instance : Inhabited Instruction := ⟨.nullConstant⟩
instance : Inhabited Condition := ⟨.and []⟩

mutual

/-- A step of a body. -/
inductive Statement where
  | arrayAssignment (array index value : Instruction)
  | instanceFieldAssignment (field : MemberRef) (target value : Instruction)
  | staticFieldAssignment (field : MemberRef) (value : Instruction)
  | localAssignment (slot : Local) (value : Instruction)
  | breakLoop
  | doWhile (condition : Condition) (body : List Statement)
  | forLoop (first : Option Statement) (condition : Option Condition) (next : Option Statement)
      (body : List Statement)
  | forEach (slot : Local) (collection : Instruction) (body : List Statement)
  | ifElse (condition : Condition) (body : List Statement) (elifs : List Elif)
      (elseBody : Option (List Statement))
  | switchOn (value : Instruction) (cases : List Case)
  | tryCatch (body : List Statement) (catches : List CatchBlock)
  | whileLoop (condition : Condition) (body : List Statement)
  | comment (lines : List String)
  | increment (slot : Local) (amount : Int32)
  | returnValue (value : Option Instruction)
  | throwValue (value : Instruction)
  | invoke (value : Instruction)

/-- A further test of a conditional statement, with its block. -/
inductive Elif where
  | mk (condition : Condition) (body : List Statement)

/-- A case of a switch. -/
inductive Case where
  | mk (indices : List Int32) (isDefault : Bool) (body : List Statement)

/-- A handler of exceptions of the given types. -/
inductive CatchBlock where
  | mk (exceptions : List String) (slot : Local) (body : List Statement)

end

instance : Inhabited Statement := ⟨.breakLoop⟩

namespace Instruction

/-- The names of all kinds of instructions. -/
def kinds : List String :=
  ["ArrayAccess", "Cast", "DoubleConstant", "FloatConstant", "IntConstant", "LongConstant",
    "NullConstant", "StringConstant", "TypeConstant", "DynamicInvoke", "InstanceMethodInvoke",
    "StaticMethodInvoke", "New", "InstanceOf", "MultiNewArray", "NewArray", "NumberCompare",
    "Ternary", "Negative", "Operator", "InstanceFieldAccess", "LocalAccess", "StaticFieldAccess"]

/-- The name of the kind of an instruction. -/
def kind : Instruction → String
  | arrayAccess .. => "ArrayAccess"
  | cast .. => "Cast"
  | doubleConstant _ => "DoubleConstant"
  | floatConstant _ => "FloatConstant"
  | intConstant _ => "IntConstant"
  | longConstant _ => "LongConstant"
  | nullConstant => "NullConstant"
  | stringConstant _ => "StringConstant"
  | typeConstant _ => "TypeConstant"
  | dynamicInvoke .. => "DynamicInvoke"
  | instanceInvoke .. => "InstanceMethodInvoke"
  | staticInvoke .. => "StaticMethodInvoke"
  | new .. => "New"
  | instanceOf .. => "InstanceOf"
  | multiNewArray .. => "MultiNewArray"
  | newArray .. => "NewArray"
  | numberCompare .. => "NumberCompare"
  | ternary .. => "Ternary"
  | negative _ => "Negative"
  | operator .. => "Operator"
  | instanceFieldAccess .. => "InstanceFieldAccess"
  | localAccess _ => "LocalAccess"
  | staticFieldAccess _ => "StaticFieldAccess"

/-- The number of the kind of an instruction. -/
def kindIndex (i : Instruction) : Nat := kinds.idxOf i.kind

end Instruction

namespace Statement

/-- The names of all kinds of statements. -/
def kinds : List String :=
  ["ArrayAssignment", "InstanceFieldAssignment", "StaticFieldAssignment", "LocalAssignment",
    "Break", "DoWhile", "For", "ForEach", "If", "Switch", "TryCatch", "While", "Comment",
    "Increment", "Return", "Throw", "Invoke"]

/-- The name of the kind of a statement. -/
def kind : Statement → String
  | arrayAssignment .. => "ArrayAssignment"
  | instanceFieldAssignment .. => "InstanceFieldAssignment"
  | staticFieldAssignment .. => "StaticFieldAssignment"
  | localAssignment .. => "LocalAssignment"
  | breakLoop => "Break"
  | doWhile .. => "DoWhile"
  | forLoop .. => "For"
  | forEach .. => "ForEach"
  | ifElse .. => "If"
  | switchOn .. => "Switch"
  | tryCatch .. => "TryCatch"
  | whileLoop .. => "While"
  | comment _ => "Comment"
  | increment .. => "Increment"
  | returnValue _ => "Return"
  | throwValue _ => "Throw"
  | invoke _ => "Invoke"

/-- The number of the kind of a statement. -/
def kindIndex (s : Statement) : Nat := kinds.idxOf s.kind

end Statement

end Namesake
