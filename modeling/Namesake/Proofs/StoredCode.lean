import Namesake.Proofs.StoredSignatures

/-! # Storing a body and reading it again

Every instruction, condition and statement is written as a named form of its kind
(`Instruction.form_toJson`, `Condition.form_toJson`, `Statement.form_toJson`), so a part that may be
absent is never mistaken for `null`: a loop without a first step is told from one whose first step
is a bare `Break`, and an empty result from the constant that is null. Each is read back as it was
written (`Instruction.ofJson?_toJson`, `Condition.ofJson?_toJson`, `Statement.ofJson?_toJson`), with
the blocks and branches inside it, empty or not.
-/

namespace Namesake

open Json (choice?_obj fullRecord?_obj)

/-! ## Leaves -/

theorem Local.ofJson?_toJson (l : Local) : ofJson? l.toJson = some l := by
  rw [ofJson?, toJson, fullRecord?_obj, Option.bind_eq_bind, Option.bind_some]
  simp [Json.uint16?_ofNat, TypeSig.optional?_toJson]

theorem MemberRef.members_append (r : MemberRef) (later : List (String × Json)) :
    r.members ++ later = ("owner", .str r.owner) :: ("name", .str r.name) ::
      ("descriptor", .str r.descriptor) :: later := rfl

/-- A reference is read from the object that holds its parts, if no later member takes the name of
one. -/
theorem MemberRef.ofJson?_obj (owner name descriptor : String) {later : List (String × Json)}
    (noOwner : Json.lastMember? "owner" later = none)
    (noName : Json.lastMember? "name" later = none)
    (noDescriptor : Json.lastMember? "descriptor" later = none) :
    ofJson? (.obj (("owner", .str owner) :: ("name", .str name) ::
      ("descriptor", .str descriptor) :: later)) = some ⟨owner, name, descriptor⟩ := by
  simp [ofJson?, noOwner, noName, noDescriptor]

theorem MemberRef.ofJson?_members (r : MemberRef) : ofJson? (.obj r.members) = some r :=
  ofJson?_obj r.owner r.name r.descriptor rfl rfl rfl

theorem BinaryOp.ofJson?_toJson (op : BinaryOp) : ofJson? op.toJson = some op := by
  cases op <;> rfl

theorem CompareOp.ofJson?_toJson (op : CompareOp) : ofJson? op.toJson = some op := by
  cases op <;> rfl

/-! ## Instructions and conditions -/

/-- The name of the kind of a condition. -/
def Condition.kind : Condition → String
  | .boolean _ => "Boolean"
  | .and _ => "And"
  | .or _ => "Or"
  | .inverse _ => "Inverse"
  | .compare .. => "Compare"

/-- Of all instructions, the constant that is null is written as its bare name. -/
theorem Instruction.form_toJson (i : Instruction) : i.toJson.Form i.kind (i = .nullConstant) := by
  cases i
  case nullConstant =>
    rw [toJson]
    exact .bare rfl
  case newArray element size initial =>
    cases initial <;> rw [toJson] <;> exact .carrying nofun _
  all_goals
    rw [toJson]
    exact .carrying nofun _

theorem Condition.form_toJson (c : Condition) : c.toJson.Form c.kind False := by
  cases c <;> rw [toJson] <;> exact .carrying id _

mutual

/-- An instruction is read back as it was written. -/
theorem Instruction.ofJson?_toJson (i : Instruction) : Instruction.ofJson? i.toJson = some i := by
  rw [Instruction.ofJson?]
  cases i
  case nullConstant =>
    rw [Instruction.toJson]
    rfl
  case newArray element size initial =>
    cases initial
    all_goals rw [Instruction.toJson, choice?_obj, Option.bind_eq_bind, Option.bind_some]
    case none =>
      simp [element.ofJson?_toJson, Instruction.ofJson?_toJson size]
    case some items =>
      simp [element.ofJson?_toJson, Instruction.ofJson?_toJson size,
        Instruction.mapM_listToJson items]
  -- all others are forms that carry their parts, which are read one by one
  all_goals rw [Instruction.toJson, choice?_obj, Option.bind_eq_bind, Option.bind_some]
  case arrayAccess array index =>
    simp [Instruction.ofJson?_toJson array, Instruction.ofJson?_toJson index]
  case cast type value => simp [type.ofJson?_toJson, Instruction.ofJson?_toJson value]
  case doubleConstant value => rfl
  case floatConstant value => rfl
  case intConstant value => simp [Json.int32?_int]
  case longConstant value => simp [Json.int64?_int]
  case stringConstant value => rfl
  case typeConstant type => simp [type.ofJson?_toJson]
  case dynamicInvoke type closure => simp [type.ofJson?_toJson]
  case instanceInvoke method callee args =>
    rw [MemberRef.members_append]
    simp [MemberRef.ofJson?_obj, Instruction.ofJson?_toJson callee,
      Instruction.mapM_listToJson args]
  case staticInvoke method args =>
    rw [MemberRef.members_append]
    simp [MemberRef.ofJson?_obj, Instruction.mapM_listToJson args]
  case new type constructor args =>
    simp [type.ofJson?_toJson, Instruction.mapM_listToJson args]
  case instanceOf type value => simp [type.ofJson?_toJson, Instruction.ofJson?_toJson value]
  case multiNewArray type sizes =>
    simp [type.ofJson?_toJson, Instruction.mapM_listToJson sizes]
  case numberCompare left right =>
    simp [Instruction.ofJson?_toJson left, Instruction.ofJson?_toJson right]
  case ternary condition thenValue elseValue =>
    simp [Condition.ofJson?_toJson condition, Instruction.ofJson?_toJson thenValue,
      Instruction.ofJson?_toJson elseValue]
  case negative value => simp [Instruction.ofJson?_toJson value]
  case operator op left right =>
    simp [op.ofJson?_toJson, Instruction.ofJson?_toJson left, Instruction.ofJson?_toJson right]
  case instanceFieldAccess field target =>
    rw [MemberRef.members_append]
    simp [MemberRef.ofJson?_obj, Instruction.ofJson?_toJson target]
  case localAccess slot => simp [slot.ofJson?_toJson]
  case staticFieldAccess field => simp [field.ofJson?_members]

/-- A condition is read back as it was written. -/
theorem Condition.ofJson?_toJson (c : Condition) : Condition.ofJson? c.toJson = some c := by
  rw [Condition.ofJson?]
  cases c
  all_goals rw [Condition.toJson, choice?_obj, Option.bind_eq_bind, Option.bind_some]
  case boolean value => simp [Instruction.ofJson?_toJson value]
  case and operands => simp [Condition.mapM_listToJson operands]
  case or operands => simp [Condition.mapM_listToJson operands]
  case inverse operand => simp [Condition.ofJson?_toJson operand]
  case compare op left right =>
    simp [op.ofJson?_toJson, Instruction.ofJson?_toJson left, Instruction.ofJson?_toJson right]

theorem Instruction.mapM_listToJson (l : List Instruction) :
    (Instruction.listToJson l).mapM Instruction.ofJson? = some l := by
  cases l with
  | nil => rfl
  | cons i rest =>
      rw [Instruction.listToJson, List.mapM_cons, Instruction.ofJson?_toJson i,
        Instruction.mapM_listToJson rest]
      rfl

theorem Condition.mapM_listToJson (l : List Condition) :
    (Condition.listToJson l).mapM Condition.ofJson? = some l := by
  cases l with
  | nil => rfl
  | cons c rest =>
      rw [Condition.listToJson, List.mapM_cons, Condition.ofJson?_toJson c,
        Condition.mapM_listToJson rest]
      rfl

end

/-! ## Statements -/

/-- A block is read statement by statement. -/
@[simp]
theorem Statement.blockOfJson?_arr (items : List Json) :
    Statement.blockOfJson? (.arr items) = items.mapM Statement.ofJson? := by
  rw [Statement.blockOfJson?]
  simp

/-- Of all statements, the end of a loop is written as its bare name. -/
theorem Statement.form_toJson (s : Statement) : s.toJson.Form s.kind (s = .breakLoop) := by
  cases s
  case breakLoop =>
    rw [toJson]
    exact .bare rfl
  case forLoop first condition next body =>
    cases first <;> cases next <;> rw [toJson] <;> exact .carrying nofun _
  case ifElse condition body elifs elseBody =>
    cases elseBody <;> rw [toJson] <;> exact .carrying nofun _
  all_goals
    rw [toJson]
    exact .carrying nofun _

mutual

/-- A statement is read back as it was written, with all blocks inside it. -/
theorem Statement.ofJson?_toJson (s : Statement) : Statement.ofJson? s.toJson = some s := by
  rw [Statement.ofJson?]
  cases s
  case breakLoop =>
    rw [Statement.toJson]
    rfl
  case forLoop first condition next body =>
    have test : Json.optional? Condition.ofJson? (.ofOption Condition.toJson condition) =
        some condition :=
      Json.optional?_ofOption (fun c _ => c.form_toJson.ne_null) fun c _ => c.ofJson?_toJson
    -- a step that is there is a named form, so the arm for `null` is passed over
    cases first <;> cases next
    all_goals rw [Statement.toJson, choice?_obj, Option.bind_eq_bind, Option.bind_some]
    case none.none => simp [test, Statement.mapM_listToJson body]
    case none.some next =>
      have present : next.toJson ≠ .null := next.form_toJson.ne_null
      simp [test, Statement.ofJson?_toJson next, Statement.mapM_listToJson body]
    case some.none first =>
      have present : first.toJson ≠ .null := first.form_toJson.ne_null
      simp [test, Statement.ofJson?_toJson first, Statement.mapM_listToJson body]
    case some.some first next =>
      have firstPresent : first.toJson ≠ .null := first.form_toJson.ne_null
      have nextPresent : next.toJson ≠ .null := next.form_toJson.ne_null
      simp [test, Statement.ofJson?_toJson first, Statement.ofJson?_toJson next,
        Statement.mapM_listToJson body]
  case ifElse condition body elifs elseBody =>
    cases elseBody
    all_goals rw [Statement.toJson, choice?_obj, Option.bind_eq_bind, Option.bind_some]
    case none =>
      simp [condition.ofJson?_toJson, Statement.mapM_listToJson body,
        Elif.mapM_listToJson elifs]
    case some last =>
      simp [condition.ofJson?_toJson, Statement.mapM_listToJson body,
        Elif.mapM_listToJson elifs, Statement.mapM_listToJson last]
  all_goals rw [Statement.toJson, choice?_obj, Option.bind_eq_bind, Option.bind_some]
  case arrayAssignment array index value =>
    simp [array.ofJson?_toJson, index.ofJson?_toJson, value.ofJson?_toJson]
  case instanceFieldAssignment field target value =>
    rw [MemberRef.members_append]
    simp [MemberRef.ofJson?_obj, target.ofJson?_toJson, value.ofJson?_toJson]
  case staticFieldAssignment field value =>
    rw [MemberRef.members_append]
    simp [MemberRef.ofJson?_obj, value.ofJson?_toJson]
  case localAssignment slot value => simp [slot.ofJson?_toJson, value.ofJson?_toJson]
  case doWhile condition body =>
    simp [condition.ofJson?_toJson, Statement.mapM_listToJson body]
  case forEach slot collection body =>
    simp [slot.ofJson?_toJson, collection.ofJson?_toJson, Statement.mapM_listToJson body]
  case switchOn value cases => simp [value.ofJson?_toJson, Case.mapM_listToJson cases]
  case tryCatch body catches =>
    simp [Statement.mapM_listToJson body, CatchBlock.mapM_listToJson catches]
  case whileLoop condition body =>
    simp [condition.ofJson?_toJson, Statement.mapM_listToJson body]
  case comment lines => simp [Json.list?_str]
  case increment slot amount => simp [slot.ofJson?_toJson, Json.int32?_int]
  case returnValue value =>
    have again : Json.optional? Instruction.ofJson? (.ofOption Instruction.toJson value) =
        some value :=
      Json.optional?_ofOption (fun i _ => i.form_toJson.ne_null) fun i _ => i.ofJson?_toJson
    simp [again]
  case throwValue value => simp [value.ofJson?_toJson]
  case invoke value => simp [value.ofJson?_toJson]

theorem Statement.mapM_listToJson (l : List Statement) :
    (Statement.listToJson l).mapM Statement.ofJson? = some l := by
  cases l with
  | nil => rfl
  | cons s rest =>
      rw [Statement.listToJson, List.mapM_cons, Statement.ofJson?_toJson s,
        Statement.mapM_listToJson rest]
      rfl

theorem Elif.mapM_listToJson (l : List Elif) :
    (Elif.listToJson l).mapM Elif.ofJson? = some l := by
  cases l with
  | nil => rfl
  | cons elif rest =>
      obtain ⟨condition, body⟩ := elif
      rw [Elif.listToJson, List.mapM_cons, Elif.ofJson?, fullRecord?_obj,
        Elif.mapM_listToJson rest]
      simp [condition.ofJson?_toJson, Statement.mapM_listToJson body]

theorem Case.mapM_listToJson (l : List Case) :
    (Case.listToJson l).mapM Case.ofJson? = some l := by
  cases l with
  | nil => rfl
  | cons part rest =>
      obtain ⟨indices, isDefault, body⟩ := part
      have again : Json.list? Json.int32? (.ofList (fun i => .int (Int32.toInt i)) indices) =
          some indices :=
        Json.list?_ofList fun i _ => Json.int32?_int i
      rw [Case.listToJson, List.mapM_cons, Case.ofJson?, fullRecord?_obj,
        Case.mapM_listToJson rest]
      simp [again, Statement.mapM_listToJson body]

theorem CatchBlock.mapM_listToJson (l : List CatchBlock) :
    (CatchBlock.listToJson l).mapM CatchBlock.ofJson? = some l := by
  cases l with
  | nil => rfl
  | cons part rest =>
      obtain ⟨exceptions, slot, body⟩ := part
      rw [CatchBlock.listToJson, List.mapM_cons, CatchBlock.ofJson?, fullRecord?_obj,
        CatchBlock.mapM_listToJson rest]
      simp [Json.list?_str, slot.ofJson?_toJson, Statement.mapM_listToJson body]

end

end Namesake
