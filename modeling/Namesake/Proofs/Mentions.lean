import Namesake.Comparison.Code
import Namesake.Proofs.Renaming

/-! # What code mentions

Compared with a renamed copy of itself, a piece of code differs in what it mentions at most: the
names of types, the descriptors and the references to members that `mentions` lists in the order of
the comparison. The comparison is the comparison of these, one after the other
(`Comparison.statements_rename`), whatever the two programs and the renaming are. The descriptors of
fields and closures are never compared, so they are not mentioned. Comments and increments are the
exception, as they agree with nothing (`Statement.IsComparable`).
-/

namespace Namesake

/-- A place where code leans on its program. -/
inductive Mention where
  | type (name : String)
  /-- The descriptor of the method or constructor that is called. -/
  | descriptor (text : String)
  | field (ref : MemberRef)
  | method (isStatic : Bool) (ref : MemberRef)
deriving DecidableEq, Repr

namespace Mention

/-- The types referred to: a class, the owner of a member, or the classes in a descriptor. -/
def referents : Mention → List String
  | type name => [name]
  | descriptor text => Descriptor.classNames text
  | field ref | method _ ref => [ref.owner]

/-- The method descriptors spelled. -/
def descriptors : Mention → List String
  | type _ | field _ => []
  | descriptor text => [text]
  | method _ ref => [ref.descriptor]

/-- All names of types spelled. -/
def names (m : Mention) : List String :=
  m.referents ++ m.descriptors.flatMap Descriptor.classNames

end Mention

/-- The method that a call leads to, among static methods or the methods of instances. -/
def Program.findCalled? (p : Program) : (isStatic : Bool) → TypeId → (name descriptor : String) →
    Option MethodId
  | false => p.findMethod?
  | true => p.findStaticMethod?

/-! ## Collecting mentions -/

/-- The classes in a signature. -/
def TypeSig.mentions (s : TypeSig) : List Mention := s.classNames.map .type

/-- The classes in the type of a local variable. -/
def Local.mentions (slot : Local) : List Mention :=
  match slot.type with
  | none => []
  | some type => type.mentions

mutual

/-- What an instruction mentions. -/
def Instruction.mentions : Instruction → List Mention
  | .arrayAccess array index => array.mentions ++ index.mentions
  | .cast type value => type.mentions ++ value.mentions
  | .doubleConstant _ | .floatConstant _ | .intConstant _ | .longConstant _ | .nullConstant
  | .stringConstant _ => []
  | .typeConstant type => type.mentions
  | .dynamicInvoke type closure => type.mentions ++ [.type closure.owner]
  | .instanceInvoke method callee args =>
    .method false method :: .descriptor method.descriptor ::
      (Instruction.listMentions args ++ callee.mentions)
  | .staticInvoke method args =>
    .method true method :: .descriptor method.descriptor :: Instruction.listMentions args
  | .new type constructor args =>
    type.mentions ++ .descriptor constructor :: Instruction.listMentions args
  | .instanceOf type value => type.mentions ++ value.mentions
  | .multiNewArray type sizes => type.mentions ++ Instruction.listMentions sizes
  | .newArray element size none => element.mentions ++ size.mentions
  | .newArray element size (some items) =>
    element.mentions ++ size.mentions ++ Instruction.listMentions items
  | .numberCompare left right => left.mentions ++ right.mentions
  | .ternary condition thenValue elseValue =>
    condition.mentions ++ thenValue.mentions ++ elseValue.mentions
  | .negative value => value.mentions
  | .operator _ left right => left.mentions ++ right.mentions
  | .instanceFieldAccess field target => .field field :: target.mentions
  | .localAccess slot => slot.mentions
  | .staticFieldAccess field => [.field field]

/-- What a condition mentions. -/
def Condition.mentions : Condition → List Mention
  | .boolean value => value.mentions
  | .and operands | .or operands => Condition.listMentions operands
  | .inverse operand => operand.mentions
  | .compare _ left right => left.mentions ++ right.mentions

def Instruction.listMentions : List Instruction → List Mention
  | [] => []
  | i :: rest => i.mentions ++ Instruction.listMentions rest

def Condition.listMentions : List Condition → List Mention
  | [] => []
  | c :: rest => c.mentions ++ Condition.listMentions rest

end

mutual

/-- What a statement mentions. -/
def Statement.mentions : Statement → List Mention
  | .arrayAssignment array index value => array.mentions ++ index.mentions ++ value.mentions
  | .instanceFieldAssignment field target value =>
    .field field :: (target.mentions ++ value.mentions)
  | .staticFieldAssignment field value => .field field :: value.mentions
  | .localAssignment slot value => slot.mentions ++ value.mentions
  | .doWhile condition body | .whileLoop condition body =>
    condition.mentions ++ Statement.listMentions body
  | .forLoop first condition next body =>
    (match first with
      | none => []
      | some s => s.mentions) ++
    (condition.toList.flatMap Condition.mentions) ++
    (match next with
      | none => []
      | some s => s.mentions) ++
    Statement.listMentions body
  | .forEach slot collection body =>
    collection.mentions ++ slot.mentions ++ Statement.listMentions body
  | .ifElse condition body elifs elseBody =>
    condition.mentions ++ Statement.listMentions body ++ Elif.listMentions elifs ++
      (match elseBody with
        | none => []
        | some last => Statement.listMentions last)
  | .switchOn value cases => value.mentions ++ Case.listMentions cases
  | .tryCatch body catches => Statement.listMentions body ++ CatchBlock.listMentions catches
  | .returnValue value => value.toList.flatMap Instruction.mentions
  | .throwValue value | .invoke value => value.mentions
  | .breakLoop | .comment _ | .increment .. => []

/-- What a block mentions. -/
def Statement.listMentions : List Statement → List Mention
  | [] => []
  | s :: rest => s.mentions ++ Statement.listMentions rest

def Elif.listMentions : List Elif → List Mention
  | [] => []
  | .mk condition body :: rest =>
    condition.mentions ++ Statement.listMentions body ++ Elif.listMentions rest

def Case.listMentions : List Case → List Mention
  | [] => []
  | .mk _ _ body :: rest => Statement.listMentions body ++ Case.listMentions rest

def CatchBlock.listMentions : List CatchBlock → List Mention
  | [] => []
  | .mk exceptions slot body :: rest =>
    exceptions.map .type ++ slot.mentions ++ Statement.listMentions body ++
      CatchBlock.listMentions rest

end

mutual

/-- Whether a statement is no comment and no increment, and holds none. -/
def Statement.IsComparable : Statement → Prop
  | .comment _ | .increment .. => False
  | .doWhile _ body | .whileLoop _ body | .forEach _ _ body => Statement.AllComparable body
  | .forLoop first _ next body =>
    (match first with
      | none => True
      | some s => s.IsComparable) ∧
    (match next with
      | none => True
      | some s => s.IsComparable) ∧
    Statement.AllComparable body
  | .ifElse _ body elifs elseBody =>
    Statement.AllComparable body ∧ Elif.AllComparable elifs ∧
      (match elseBody with
        | none => True
        | some last => Statement.AllComparable last)
  | .switchOn _ cases => Case.AllComparable cases
  | .tryCatch body catches => Statement.AllComparable body ∧ CatchBlock.AllComparable catches
  | .arrayAssignment .. | .instanceFieldAssignment .. | .staticFieldAssignment ..
  | .localAssignment .. | .breakLoop | .returnValue _ | .throwValue _ | .invoke _ => True

def Statement.AllComparable : List Statement → Prop
  | [] => True
  | s :: rest => s.IsComparable ∧ Statement.AllComparable rest

def Elif.AllComparable : List Elif → Prop
  | [] => True
  | .mk _ body :: rest => Statement.AllComparable body ∧ Elif.AllComparable rest

def Case.AllComparable : List Case → Prop
  | [] => True
  | .mk _ _ body :: rest => Statement.AllComparable body ∧ Case.AllComparable rest

def CatchBlock.AllComparable : List CatchBlock → Prop
  | [] => True
  | .mk _ _ body :: rest => Statement.AllComparable body ∧ CatchBlock.AllComparable rest

end

theorem Statement.mentions_subset {s : Statement} {body : List Statement} (member : s ∈ body) :
    s.mentions ⊆ Statement.listMentions body := by
  induction body with
  | nil => cases member
  | cons first rest ih =>
      intro m mentioned
      rcases List.mem_cons.mp member with rfl | later
      · exact List.mem_append_left _ mentioned
      · exact List.mem_append_right _ (ih later mentioned)

theorem Statement.AllComparable.of_mem {s : Statement} {body : List Statement}
    (comparable : Statement.AllComparable body) (member : s ∈ body) : s.IsComparable := by
  induction body with
  | nil => cases member
  | cons first rest ih =>
      obtain ⟨head, tail⟩ := comparable
      rcases List.mem_cons.mp member with rfl | later
      · exact head
      · exact ih tail later

namespace Comparison

/-! ## Comparing mentions -/

section

variable (old new : Program) (naming : String → String)

/-- Compare what is mentioned with what a renamed copy mentions in its place. -/
def renamed : Mention → Comparison
  | .type name => typeNames old new name (naming name)
  | .descriptor text => methodDescriptors old new text (Descriptor.rename naming text)
  | .field ref => fieldRefs old new ref (ref.renameField naming)
  | .method isStatic ref =>
    methodRefs old new (old.findCalled? isStatic) (new.findCalled? isStatic) ref
      (ref.renameMethod naming)

/-- Compare mentions one after the other. -/
def allRenamed (mentions : List Mention) : Comparison := mentions.flatMap (renamed old new naming)

end

variable {old new : Program} {naming : String → String}

@[simp]
theorem allRenamed_nil : allRenamed old new naming [] = [] := rfl

@[simp]
theorem allRenamed_cons (m : Mention) (rest : List Mention) :
    allRenamed old new naming (m :: rest) =
      renamed old new naming m ++ allRenamed old new naming rest :=
  List.flatMap_cons

@[simp]
theorem allRenamed_append (first second : List Mention) :
    allRenamed old new naming (first ++ second) =
      allRenamed old new naming first ++ allRenamed old new naming second :=
  List.flatMap_append

@[simp]
theorem same_self {α : Type} [DecidableEq α] (a : α) : same a a = [] := if_pos rfl

/-! ## Comparing code -/

@[simp]
theorem length_renameAll_args (args : List TypeArg) :
    (TypeArg.renameAll naming args).length = args.length := by
  induction args with
  | nil => rfl
  | cons arg rest ih =>
      obtain ⟨w, none | sig⟩ := arg <;> simp [TypeArg.renameAll, ih]

@[simp]
theorem length_renameAll_instructions (is : List Instruction) :
    (Instruction.renameAll naming is).length = is.length := by
  induction is with
  | nil => rfl
  | cons i rest ih => simp [Instruction.renameAll, ih]

@[simp]
theorem length_renameAll_conditions (cs : List Condition) :
    (Condition.renameAll naming cs).length = cs.length := by
  induction cs with
  | nil => rfl
  | cons c rest ih => simp [Condition.renameAll, ih]

@[simp]
theorem length_renameAll_elifs (es : List Elif) :
    (Elif.renameAll naming es).length = es.length := by
  induction es with
  | nil => rfl
  | cons e rest ih => cases e; simp [Elif.renameAll, ih]

@[simp]
theorem length_renameAll_cases (cs : List Case) :
    (Case.renameAll naming cs).length = cs.length := by
  induction cs with
  | nil => rfl
  | cons c rest ih => cases c; simp [Case.renameAll, ih]

@[simp]
theorem length_renameAll_catches (cs : List CatchBlock) :
    (CatchBlock.renameAll naming cs).length = cs.length := by
  induction cs with
  | nil => rfl
  | cons c rest ih => cases c; simp [CatchBlock.renameAll, ih]

theorem signatures_rename :
    (∀ s : TypeSig, typeSigs old new s (s.rename naming) = allRenamed old new naming s.mentions) ∧
    ∀ args : List TypeArg, typeArgs old new args (TypeArg.renameAll naming args) =
      allRenamed old new naming ((TypeArg.listClassNames args).map .type) := by
  apply TypeSig.rename.mutual_induct
  all_goals
    intros
    simp_all [typeSigs, typeArgs, TypeSig.rename, TypeArg.renameAll, TypeSig.mentions,
      TypeSig.classNames, TypeArg.listClassNames, renamed]

@[simp]
theorem typeSigs_rename (s : TypeSig) :
    typeSigs old new s (s.rename naming) = allRenamed old new naming s.mentions :=
  signatures_rename.1 s

@[simp]
theorem locals_rename (slot : Local) :
    locals old new slot (slot.rename naming) = allRenamed old new naming slot.mentions := by
  obtain ⟨index, type⟩ := slot
  cases type with
  | none => rfl
  | some type => exact typeSigs_rename type

theorem values_rename :
    (∀ i : Instruction,
      instructions old new i (i.rename naming) = allRenamed old new naming i.mentions) ∧
    (∀ c : Condition,
      conditions old new c (c.rename naming) = allRenamed old new naming c.mentions) ∧
    (∀ cs : List Condition, conditionLists old new cs (Condition.renameAll naming cs) =
      allRenamed old new naming (Condition.listMentions cs)) ∧
    ∀ is : List Instruction, instructionLists old new is (Instruction.renameAll naming is) =
      allRenamed old new naming (Instruction.listMentions is) := by
  apply Instruction.rename.mutual_induct
  all_goals
    intros
    simp_all [instructions, conditions, conditionLists, instructionLists, Instruction.rename,
      Condition.rename, Instruction.renameAll, Condition.renameAll, Instruction.mentions,
      Condition.mentions, Condition.listMentions, Instruction.listMentions, renamed,
      Program.findCalled?, MemberRef.renameMethod]

@[simp]
theorem instructions_rename (i : Instruction) :
    instructions old new i (i.rename naming) = allRenamed old new naming i.mentions :=
  values_rename.1 i

@[simp]
theorem conditions_rename (c : Condition) :
    conditions old new c (c.rename naming) = allRenamed old new naming c.mentions :=
  values_rename.2.1 c

@[simp]
theorem optionalInstructions_rename (value : Option Instruction) :
    optionalInstructions old new value (value.map (Instruction.rename naming)) =
      allRenamed old new naming (value.toList.flatMap Instruction.mentions) := by
  cases value with
  | none => rfl
  | some i => simp [optionalInstructions]

@[simp]
theorem optionalConditions_rename (condition : Option Condition) :
    optionalConditions old new condition (condition.map (Condition.rename naming)) =
      allRenamed old new naming (condition.toList.flatMap Condition.mentions) := by
  cases condition with
  | none => rfl
  | some c => simp [optionalConditions]

@[simp]
theorem caseLabels_self (indices : List Int32) (isDefault : Bool) :
    caseLabels indices indices isDefault isDefault = [] := by
  have found : indices.all indices.contains = true :=
    List.all_eq_true.mpr fun index member => List.contains_iff_mem.mpr member
  simp [caseLabels, found]

@[simp]
theorem exceptionTypes_rename (exceptions : List String) :
    exceptionTypes old new exceptions (exceptions.map naming) =
      allRenamed old new naming (exceptions.map .type) := by
  have each : zip (typeNames old new) exceptions (exceptions.map naming) =
      allRenamed old new naming (exceptions.map .type) := by
    induction exceptions with
    | nil => rfl
    | cons first rest ih =>
        rw [List.map_cons, List.map_cons, allRenamed_cons, ← ih]
        rfl
  rw [exceptionTypes, List.length_map, same_self, List.nil_append, each]

/-- Where nothing is a comment or an increment, the comparison with a renamed copy is that of the
mentions. -/
theorem steps_rename :
    (∀ s : Statement, s.IsComparable →
      statements old new s (s.rename naming) = allRenamed old new naming s.mentions) ∧
    (∀ cs : List CatchBlock, CatchBlock.AllComparable cs →
      catchLists old new cs (CatchBlock.renameAll naming cs) =
        allRenamed old new naming (CatchBlock.listMentions cs)) ∧
    (∀ ss : List Statement, Statement.AllComparable ss →
      blocks old new ss (Statement.renameAll naming ss) =
        allRenamed old new naming (Statement.listMentions ss)) ∧
    (∀ cs : List Case, Case.AllComparable cs →
      caseLists old new cs (Case.renameAll naming cs) =
        allRenamed old new naming (Case.listMentions cs)) ∧
    ∀ es : List Elif, Elif.AllComparable es →
      elifLists old new es (Elif.renameAll naming es) =
        allRenamed old new naming (Elif.listMentions es) := by
  apply Statement.rename.mutual_induct
  -- the optional parts of a loop or a conditional decide which of them are compared
  case case7 =>
    intro first condition next body start step inner comparable
    cases first <;> cases next <;>
      simp_all [statements, Statement.rename, Statement.mentions, Statement.IsComparable]
  case case9 =>
    intro condition body elifs last inner others final comparable
    cases last <;>
      simp_all [statements, Statement.rename, Statement.mentions, Statement.IsComparable]
  all_goals
    intros
    simp_all [statements, blocks, catchLists, caseLists, elifLists, Statement.rename,
      Statement.renameAll, CatchBlock.renameAll, Case.renameAll, Elif.renameAll,
      Statement.mentions, Statement.listMentions, CatchBlock.listMentions, Case.listMentions,
      Elif.listMentions, Statement.IsComparable, Statement.AllComparable,
      CatchBlock.AllComparable, Case.AllComparable, Elif.AllComparable, renamed]

/-- **A renamed copy agrees in all but what it mentions.** -/
theorem statements_rename {s : Statement} (comparable : s.IsComparable) :
    statements old new s (s.rename naming) = allRenamed old new naming s.mentions :=
  steps_rename.1 s comparable

end Comparison

end Namesake
