import Namesake.Code.Basic
import Namesake.Signature.Json

/-! # Bodies as JSON

Statements, instructions and conditions are choices among named forms, named as their kinds. A form
without parts is its bare name; one with a single unnamed part carries that part; all others carry
an object of their parts. An absent part is `null`. Variables and the branches of a statement are
plain records, whose parts may also be read from an array that lists all of them in their order.
-/

namespace Namesake

namespace Json

/-- A whole number of 16 bits without sign. -/
def uint16? (j : Json) : Option UInt16 := (j.nat? 16).map UInt16.ofNat

/-- A whole number of 32 bits with sign. -/
def int32? (j : Json) : Option Int32 :=
  (j.int? Int32.minValue.toInt Int32.maxValue.toInt).map Int32.ofInt

/-- A whole number of 64 bits with sign. -/
def int64? (j : Json) : Option Int64 :=
  (j.int? Int64.minValue.toInt Int64.maxValue.toInt).map Int64.ofInt

end Json

namespace Local

def toJson (l : Local) : Json :=
  .obj [("index", .ofNat l.index.toNat), ("ty", .ofOption TypeSig.toJson l.type)]

def ofJson? (j : Json) : Option Local := do
  let r ← j.fullRecord? ["index", "ty"]
  let index ← r.required "index" Json.uint16?
  let type ← r.optional "ty" TypeSig.ofJson?
  return ⟨index, type⟩

end Local

namespace MemberRef

/-- The three parts of a reference, as members of the object that holds it. -/
def members (r : MemberRef) : List (String × Json) :=
  [("owner", .str r.owner), ("name", .str r.name), ("descriptor", .str r.descriptor)]

def ofJson? (j : Json) : Option MemberRef := do
  let owner ← j.required "owner" Json.str?
  let name ← j.required "name" Json.str?
  let descriptor ← j.required "descriptor" Json.str?
  return ⟨owner, name, descriptor⟩

end MemberRef

namespace BinaryOp

def toJson : BinaryOp → Json
  | add => .str "Add"
  | sub => .str "Sub"
  | mul => .str "Mul"
  | div => .str "Div"
  | rem => .str "Rem"
  | and => .str "And"
  | or => .str "Or"
  | xor => .str "Xor"
  | shl => .str "Shl"
  | shr => .str "Shr"
  | ushr => .str "Ushr"

def ofJson? (j : Json) : Option BinaryOp :=
  match j.name? with
  | some "Add" => some add
  | some "Sub" => some sub
  | some "Mul" => some mul
  | some "Div" => some div
  | some "Rem" => some rem
  | some "And" => some and
  | some "Or" => some or
  | some "Xor" => some xor
  | some "Shl" => some shl
  | some "Shr" => some shr
  | some "Ushr" => some ushr
  | _ => none

end BinaryOp

namespace CompareOp

def toJson : CompareOp → Json
  | eq => .str "Eq"
  | ne => .str "Ne"
  | lt => .str "Lt"
  | le => .str "Le"
  | gt => .str "Gt"
  | ge => .str "Ge"

def ofJson? (j : Json) : Option CompareOp :=
  match j.name? with
  | some "Eq" => some eq
  | some "Ne" => some ne
  | some "Lt" => some lt
  | some "Le" => some le
  | some "Gt" => some gt
  | some "Ge" => some ge
  | _ => none

end CompareOp

/-! ## Writing -/

mutual

def Instruction.toJson : Instruction → Json
  | .arrayAccess array index =>
    .obj [("ArrayAccess", .obj [("array", array.toJson), ("index", index.toJson)])]
  | .cast type value => .obj [("Cast", .obj [("ty", type.toJson), ("value", value.toJson)])]
  | .doubleConstant value => .obj [("DoubleConstant", .decimal value)]
  | .floatConstant value => .obj [("FloatConstant", .decimal value)]
  | .intConstant value => .obj [("IntConstant", .int value.toInt)]
  | .longConstant value => .obj [("LongConstant", .int value.toInt)]
  | .nullConstant => .str "NullConstant"
  | .stringConstant value => .obj [("StringConstant", .str value)]
  | .typeConstant type => .obj [("TypeConstant", type.toJson)]
  | .dynamicInvoke type closure =>
    .obj [("DynamicInvoke", .obj [("ty", type.toJson), ("lambda_owner", .str closure.owner),
      ("lambda_name", .str closure.name), ("lambda_descriptor", .str closure.descriptor)])]
  | .instanceInvoke method callee args =>
    .obj [("InstanceMethodInvoke", .obj (method.members ++
      [("callee", callee.toJson), ("args", .arr (Instruction.listToJson args))]))]
  | .staticInvoke method args =>
    .obj [("StaticMethodInvoke", .obj (method.members ++
      [("args", .arr (Instruction.listToJson args))]))]
  | .new type constructor args =>
    .obj [("New", .obj [("ty", type.toJson), ("ctor_descriptor", .str constructor),
      ("args", .arr (Instruction.listToJson args))])]
  | .instanceOf type value =>
    .obj [("InstanceOf", .obj [("ty", type.toJson), ("value", value.toJson)])]
  | .multiNewArray type sizes =>
    .obj [("MultiNewArray", .obj [("ty", type.toJson),
      ("sizes", .arr (Instruction.listToJson sizes))])]
  | .newArray element size none =>
    .obj [("NewArray", .obj [("ty", element.toJson), ("size", size.toJson),
      ("initializer", .null)])]
  | .newArray element size (some items) =>
    .obj [("NewArray", .obj [("ty", element.toJson), ("size", size.toJson),
      ("initializer", .arr (Instruction.listToJson items))])]
  | .numberCompare left right =>
    .obj [("NumberCompare", .obj [("left", left.toJson), ("right", right.toJson)])]
  | .ternary condition thenValue elseValue =>
    .obj [("Ternary", .obj [("condition", condition.toJson), ("then_value", thenValue.toJson),
      ("else_value", elseValue.toJson)])]
  | .negative value => .obj [("Negative", value.toJson)]
  | .operator op left right =>
    .obj [("Operator", .obj [("op", op.toJson), ("left", left.toJson), ("right", right.toJson)])]
  | .instanceFieldAccess field target =>
    .obj [("InstanceFieldAccess", .obj (field.members ++ [("target", target.toJson)]))]
  | .localAccess slot => .obj [("LocalAccess", slot.toJson)]
  | .staticFieldAccess field => .obj [("StaticFieldAccess", .obj field.members)]

def Condition.toJson : Condition → Json
  | .boolean value => .obj [("Boolean", value.toJson)]
  | .and operands => .obj [("And", .arr (Condition.listToJson operands))]
  | .or operands => .obj [("Or", .arr (Condition.listToJson operands))]
  | .inverse operand => .obj [("Inverse", operand.toJson)]
  | .compare op left right =>
    .obj [("Compare", .obj [("op", op.toJson), ("left", left.toJson), ("right", right.toJson)])]

def Instruction.listToJson : List Instruction → List Json
  | [] => []
  | i :: rest => i.toJson :: Instruction.listToJson rest

def Condition.listToJson : List Condition → List Json
  | [] => []
  | c :: rest => c.toJson :: Condition.listToJson rest

end

mutual

def Statement.toJson : Statement → Json
  | .arrayAssignment array index value =>
    .obj [("ArrayAssignment", .obj [("array", array.toJson), ("index", index.toJson),
      ("value", value.toJson)])]
  | .instanceFieldAssignment field target value =>
    .obj [("InstanceFieldAssignment", .obj (field.members ++
      [("target", target.toJson), ("value", value.toJson)]))]
  | .staticFieldAssignment field value =>
    .obj [("StaticFieldAssignment", .obj (field.members ++ [("value", value.toJson)]))]
  | .localAssignment slot value =>
    .obj [("LocalAssignment", .obj [("local", slot.toJson), ("value", value.toJson)])]
  | .breakLoop => .str "Break"
  | .doWhile condition body =>
    .obj [("DoWhile", .obj [("condition", condition.toJson),
      ("body", .arr (Statement.listToJson body))])]
  | .forLoop first condition next body =>
    .obj [("For", .obj [
      ("init", match first with
        | none => .null
        | some s => s.toJson),
      ("condition", .ofOption Condition.toJson condition),
      ("incr", match next with
        | none => .null
        | some s => s.toJson),
      ("body", .arr (Statement.listToJson body))])]
  | .forEach slot collection body =>
    .obj [("ForEach", .obj [("local", slot.toJson), ("collection", collection.toJson),
      ("body", .arr (Statement.listToJson body))])]
  | .ifElse condition body elifs elseBody =>
    .obj [("If", .obj [("condition", condition.toJson), ("body", .arr (Statement.listToJson body)),
      ("elifs", .arr (Elif.listToJson elifs)),
      ("else_body", match elseBody with
        | none => .null
        | some last => .arr (Statement.listToJson last))])]
  | .switchOn value cases =>
    .obj [("Switch", .obj [("value", value.toJson), ("cases", .arr (Case.listToJson cases))])]
  | .tryCatch body catches =>
    .obj [("TryCatch", .obj [("body", .arr (Statement.listToJson body)),
      ("catches", .arr (CatchBlock.listToJson catches))])]
  | .whileLoop condition body =>
    .obj [("While", .obj [("condition", condition.toJson),
      ("body", .arr (Statement.listToJson body))])]
  | .comment lines => .obj [("Comment", .ofList .str lines)]
  | .increment slot amount =>
    .obj [("Increment", .obj [("local", slot.toJson), ("amount", .int amount.toInt)])]
  | .returnValue value => .obj [("Return", .ofOption Instruction.toJson value)]
  | .throwValue value => .obj [("Throw", value.toJson)]
  | .invoke value => .obj [("Invoke", value.toJson)]

def Statement.listToJson : List Statement → List Json
  | [] => []
  | s :: rest => s.toJson :: Statement.listToJson rest

def Elif.listToJson : List Elif → List Json
  | [] => []
  | .mk condition body :: rest =>
    .obj [("condition", condition.toJson), ("body", .arr (Statement.listToJson body))] ::
      Elif.listToJson rest

def Case.listToJson : List Case → List Json
  | [] => []
  | .mk indices isDefault body :: rest =>
    .obj [("indices", .ofList (fun i => .int (Int32.toInt i)) indices),
      ("is_default", .bool isDefault), ("body", .arr (Statement.listToJson body))] ::
      Case.listToJson rest

def CatchBlock.listToJson : List CatchBlock → List Json
  | [] => []
  | .mk exceptions slot body :: rest =>
    .obj [("exceptions", .ofList .str exceptions), ("local", slot.toJson),
      ("body", .arr (Statement.listToJson body))] :: CatchBlock.listToJson rest

end

/-! ## Reading -/

mutual

def Instruction.ofJson? (j : Json) : Option Instruction := do
  match ← j.choice? with
  | .carrying "ArrayAccess" ⟨body, _⟩ =>
    let ⟨array, _⟩ ← body.member? "array"
    let ⟨index, _⟩ ← body.member? "index"
    return .arrayAccess (← Instruction.ofJson? array) (← Instruction.ofJson? index)
  | .carrying "Cast" ⟨body, _⟩ =>
    let ⟨value, _⟩ ← body.member? "value"
    return .cast (← body.required "ty" TypeSig.ofJson?) (← Instruction.ofJson? value)
  | .carrying "DoubleConstant" ⟨body, _⟩ => return .doubleConstant (← body.decimal?)
  | .carrying "FloatConstant" ⟨body, _⟩ => return .floatConstant (← body.decimal?)
  | .carrying "IntConstant" ⟨body, _⟩ => return .intConstant (← body.int32?)
  | .carrying "LongConstant" ⟨body, _⟩ => return .longConstant (← body.int64?)
  | .carrying "NullConstant" ⟨.null, _⟩ => return .nullConstant
  | .bare "NullConstant" => return .nullConstant
  | .carrying "StringConstant" ⟨body, _⟩ => return .stringConstant (← body.str?)
  | .carrying "TypeConstant" ⟨body, _⟩ => return .typeConstant (← TypeSig.ofJson? body)
  | .carrying "DynamicInvoke" ⟨body, _⟩ =>
    let type ← body.required "ty" TypeSig.ofJson?
    let owner ← body.required "lambda_owner" Json.str?
    let name ← body.required "lambda_name" Json.str?
    let descriptor ← body.required "lambda_descriptor" Json.str?
    return .dynamicInvoke type ⟨owner, name, descriptor⟩
  | .carrying "InstanceMethodInvoke" ⟨body, _⟩ =>
    let method ← MemberRef.ofJson? body
    let ⟨callee, _⟩ ← body.member? "callee"
    let ⟨args, _⟩ ← body.member? "args"
    return .instanceInvoke method (← Instruction.ofJson? callee)
      (← (← args.items?).mapM fun ⟨arg, _⟩ => Instruction.ofJson? arg)
  | .carrying "StaticMethodInvoke" ⟨body, _⟩ =>
    let method ← MemberRef.ofJson? body
    let ⟨args, _⟩ ← body.member? "args"
    return .staticInvoke method (← (← args.items?).mapM fun ⟨arg, _⟩ => Instruction.ofJson? arg)
  | .carrying "New" ⟨body, _⟩ =>
    let type ← body.required "ty" TypeSig.ofJson?
    let constructor ← body.required "ctor_descriptor" Json.str?
    let ⟨args, _⟩ ← body.member? "args"
    return .new type constructor
      (← (← args.items?).mapM fun ⟨arg, _⟩ => Instruction.ofJson? arg)
  | .carrying "InstanceOf" ⟨body, _⟩ =>
    let ⟨value, _⟩ ← body.member? "value"
    return .instanceOf (← body.required "ty" TypeSig.ofJson?) (← Instruction.ofJson? value)
  | .carrying "MultiNewArray" ⟨body, _⟩ =>
    let type ← body.required "ty" TypeSig.ofJson?
    let ⟨sizes, _⟩ ← body.member? "sizes"
    return .multiNewArray type
      (← (← sizes.items?).mapM fun ⟨size, _⟩ => Instruction.ofJson? size)
  | .carrying "NewArray" ⟨body, _⟩ =>
    let element ← body.required "ty" TypeSig.ofJson?
    let ⟨size, _⟩ ← body.member? "size"
    let size ← Instruction.ofJson? size
    match body.member? "initializer" with
    | none | some ⟨.null, _⟩ => return .newArray element size none
    | some ⟨items, _⟩ =>
      return .newArray element size
        (some (← (← items.items?).mapM fun ⟨item, _⟩ => Instruction.ofJson? item))
  | .carrying "NumberCompare" ⟨body, _⟩ =>
    let ⟨left, _⟩ ← body.member? "left"
    let ⟨right, _⟩ ← body.member? "right"
    return .numberCompare (← Instruction.ofJson? left) (← Instruction.ofJson? right)
  | .carrying "Ternary" ⟨body, _⟩ =>
    let ⟨condition, _⟩ ← body.member? "condition"
    let ⟨thenValue, _⟩ ← body.member? "then_value"
    let ⟨elseValue, _⟩ ← body.member? "else_value"
    return .ternary (← Condition.ofJson? condition) (← Instruction.ofJson? thenValue)
      (← Instruction.ofJson? elseValue)
  | .carrying "Negative" ⟨body, _⟩ => return .negative (← Instruction.ofJson? body)
  | .carrying "Operator" ⟨body, _⟩ =>
    let op ← body.required "op" BinaryOp.ofJson?
    let ⟨left, _⟩ ← body.member? "left"
    let ⟨right, _⟩ ← body.member? "right"
    return .operator op (← Instruction.ofJson? left) (← Instruction.ofJson? right)
  | .carrying "InstanceFieldAccess" ⟨body, _⟩ =>
    let field ← MemberRef.ofJson? body
    let ⟨target, _⟩ ← body.member? "target"
    return .instanceFieldAccess field (← Instruction.ofJson? target)
  | .carrying "LocalAccess" ⟨body, _⟩ => return .localAccess (← Local.ofJson? body)
  | .carrying "StaticFieldAccess" ⟨body, _⟩ => return .staticFieldAccess (← MemberRef.ofJson? body)
  | _ => none
termination_by sizeOf j

def Condition.ofJson? (j : Json) : Option Condition := do
  match ← j.choice? with
  | .carrying "Boolean" ⟨body, _⟩ => return .boolean (← Instruction.ofJson? body)
  | .carrying "And" ⟨body, _⟩ =>
    return .and (← (← body.items?).mapM fun ⟨operand, _⟩ => Condition.ofJson? operand)
  | .carrying "Or" ⟨body, _⟩ =>
    return .or (← (← body.items?).mapM fun ⟨operand, _⟩ => Condition.ofJson? operand)
  | .carrying "Inverse" ⟨body, _⟩ => return .inverse (← Condition.ofJson? body)
  | .carrying "Compare" ⟨body, _⟩ =>
    let op ← body.required "op" CompareOp.ofJson?
    let ⟨left, _⟩ ← body.member? "left"
    let ⟨right, _⟩ ← body.member? "right"
    return .compare op (← Instruction.ofJson? left) (← Instruction.ofJson? right)
  | _ => none
termination_by sizeOf j

end

mutual

def Statement.ofJson? (j : Json) : Option Statement := do
  match ← j.choice? with
  | .carrying "ArrayAssignment" ⟨body, _⟩ =>
    let array ← body.required "array" Instruction.ofJson?
    let index ← body.required "index" Instruction.ofJson?
    return .arrayAssignment array index (← body.required "value" Instruction.ofJson?)
  | .carrying "InstanceFieldAssignment" ⟨body, _⟩ =>
    let field ← MemberRef.ofJson? body
    let target ← body.required "target" Instruction.ofJson?
    return .instanceFieldAssignment field target (← body.required "value" Instruction.ofJson?)
  | .carrying "StaticFieldAssignment" ⟨body, _⟩ =>
    let field ← MemberRef.ofJson? body
    return .staticFieldAssignment field (← body.required "value" Instruction.ofJson?)
  | .carrying "LocalAssignment" ⟨body, _⟩ =>
    let slot ← body.required "local" Local.ofJson?
    return .localAssignment slot (← body.required "value" Instruction.ofJson?)
  | .bare "Break" => return .breakLoop
  | .carrying "Break" ⟨.null, _⟩ => return .breakLoop
  | .carrying "DoWhile" ⟨body, _⟩ =>
    let condition ← body.required "condition" Condition.ofJson?
    let ⟨block, _⟩ ← body.member? "body"
    return .doWhile condition (← Statement.blockOfJson? block)
  | .carrying "For" ⟨body, _⟩ =>
    let first ← match body.member? "init" with
      | none | some ⟨.null, _⟩ => some none
      | some ⟨s, _⟩ => (Statement.ofJson? s).map some
    let condition ← body.optional "condition" Condition.ofJson?
    let next ← match body.member? "incr" with
      | none | some ⟨.null, _⟩ => some none
      | some ⟨s, _⟩ => (Statement.ofJson? s).map some
    let ⟨block, _⟩ ← body.member? "body"
    return .forLoop first condition next (← Statement.blockOfJson? block)
  | .carrying "ForEach" ⟨body, _⟩ =>
    let slot ← body.required "local" Local.ofJson?
    let collection ← body.required "collection" Instruction.ofJson?
    let ⟨block, _⟩ ← body.member? "body"
    return .forEach slot collection (← Statement.blockOfJson? block)
  | .carrying "If" ⟨body, _⟩ =>
    let condition ← body.required "condition" Condition.ofJson?
    let ⟨block, _⟩ ← body.member? "body"
    let block ← Statement.blockOfJson? block
    let ⟨elifs, _⟩ ← body.member? "elifs"
    let elifs ← (← elifs.items?).mapM fun ⟨elif, _⟩ => Elif.ofJson? elif
    match body.member? "else_body" with
    | none | some ⟨.null, _⟩ => return .ifElse condition block elifs none
    | some ⟨last, _⟩ => return .ifElse condition block elifs (some (← Statement.blockOfJson? last))
  | .carrying "Switch" ⟨body, _⟩ =>
    let value ← body.required "value" Instruction.ofJson?
    let ⟨cases, _⟩ ← body.member? "cases"
    return .switchOn value (← (← cases.items?).mapM fun ⟨case, _⟩ => Case.ofJson? case)
  | .carrying "TryCatch" ⟨body, _⟩ =>
    let ⟨block, _⟩ ← body.member? "body"
    let block ← Statement.blockOfJson? block
    let ⟨catches, _⟩ ← body.member? "catches"
    return .tryCatch block (← (← catches.items?).mapM fun ⟨part, _⟩ => CatchBlock.ofJson? part)
  | .carrying "While" ⟨body, _⟩ =>
    let condition ← body.required "condition" Condition.ofJson?
    let ⟨block, _⟩ ← body.member? "body"
    return .whileLoop condition (← Statement.blockOfJson? block)
  | .carrying "Comment" ⟨body, _⟩ => return .comment (← body.list? Json.str?)
  | .carrying "Increment" ⟨body, _⟩ =>
    let slot ← body.required "local" Local.ofJson?
    return .increment slot (← body.required "amount" Json.int32?)
  | .carrying "Return" ⟨body, _⟩ => return .returnValue (← body.optional? Instruction.ofJson?)
  | .carrying "Throw" ⟨body, _⟩ => return .throwValue (← Instruction.ofJson? body)
  | .carrying "Invoke" ⟨body, _⟩ => return .invoke (← Instruction.ofJson? body)
  | _ => none
termination_by sizeOf j

def Statement.blockOfJson? (j : Json) : Option (List Statement) := do
  (← j.items?).mapM fun ⟨s, _⟩ => Statement.ofJson? s
termination_by sizeOf j

def Elif.ofJson? (j : Json) : Option Elif := do
  let r ← j.fullRecord? ["condition", "body"]
  let condition ← r.required "condition" Condition.ofJson?
  let ⟨block, _⟩ ← r.part? "body"
  return .mk condition (← Statement.blockOfJson? block)
termination_by sizeOf j

def Case.ofJson? (j : Json) : Option Case := do
  let r ← j.fullRecord? ["indices", "is_default", "body"]
  let indices ← r.required "indices" (Json.list? Json.int32?)
  let isDefault ← r.required "is_default" Json.bool?
  let ⟨block, _⟩ ← r.part? "body"
  return .mk indices isDefault (← Statement.blockOfJson? block)
termination_by sizeOf j

def CatchBlock.ofJson? (j : Json) : Option CatchBlock := do
  let r ← j.fullRecord? ["exceptions", "local", "body"]
  let exceptions ← r.required "exceptions" (Json.list? Json.str?)
  let slot ← r.required "local" Local.ofJson?
  let ⟨block, _⟩ ← r.part? "body"
  return .mk exceptions slot (← Statement.blockOfJson? block)
termination_by sizeOf j

end

end Namesake
