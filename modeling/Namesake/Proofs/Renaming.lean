import Mathlib.Data.Set.Function
import Namesake.Program.Basic
import Namesake.Proofs.Descriptors

/-! # Renaming types

A program is renamed by giving its types other names, everywhere they are spelled: in its name
index, in supertypes, signatures and descriptors, and in bodies. Numbers, the names of members and
everything else stay. A descriptor is renamed by way of the signature it spells; a text that is no
descriptor is left alone.

Renaming what is spelled with names of a set can be undone if no two names of the set become one
(`Descriptor.rename_injOn`).
-/

namespace Namesake

/-! ## Signatures -/

section

variable (naming : String → String)

mutual

/-- A signature under other class names. -/
def TypeSig.rename : TypeSig → TypeSig
  | .primitive code => .primitive code
  | .class name args => .class (naming name) (TypeArg.renameAll args)
  | .array element => .array element.rename
  | .var name => .var name

def TypeArg.renameAll : List TypeArg → List TypeArg
  | [] => []
  | .mk w none :: rest => .mk w none :: TypeArg.renameAll rest
  | .mk w (some sig) :: rest => .mk w (some sig.rename) :: TypeArg.renameAll rest

end

def MethodSignature.rename (s : MethodSignature) : MethodSignature :=
  ⟨s.params.map (TypeSig.rename naming), s.ret.rename naming⟩

def ClassSignature.rename (s : ClassSignature) : ClassSignature :=
  { s with
    superclass := s.superclass.map (TypeSig.rename naming)
    interfaces := s.interfaces.map (TypeSig.rename naming) }

/-- The descriptor of a method under other class names. -/
def Descriptor.rename (text : String) : String :=
  match MethodSignature.ofDescriptor? text with
  | some sig => (sig.rename naming).descriptor
  | none => text

/-- The descriptor of a field under other class names. -/
def Descriptor.renameType (text : String) : String :=
  match TypeSig.ofDescriptor? text with
  | some sig => (sig.rename naming).descriptor
  | none => text

/-! ## Code -/

def MemberRef.renameField (r : MemberRef) : MemberRef :=
  { r with owner := naming r.owner, descriptor := Descriptor.renameType naming r.descriptor }

def MemberRef.renameMethod (r : MemberRef) : MemberRef :=
  { r with owner := naming r.owner, descriptor := Descriptor.rename naming r.descriptor }

def Local.rename (slot : Local) : Local :=
  { slot with type := slot.type.map (TypeSig.rename naming) }

mutual

/-- An instruction under other class names. -/
def Instruction.rename : Instruction → Instruction
  | .arrayAccess array index => .arrayAccess array.rename index.rename
  | .cast type value => .cast (type.rename naming) value.rename
  | .doubleConstant value => .doubleConstant value
  | .floatConstant value => .floatConstant value
  | .intConstant value => .intConstant value
  | .longConstant value => .longConstant value
  | .nullConstant => .nullConstant
  | .stringConstant value => .stringConstant value
  | .typeConstant type => .typeConstant (type.rename naming)
  | .dynamicInvoke type closure =>
    .dynamicInvoke (type.rename naming) (closure.renameMethod naming)
  | .instanceInvoke method callee args =>
    .instanceInvoke (method.renameMethod naming) callee.rename (Instruction.renameAll args)
  | .staticInvoke method args =>
    .staticInvoke (method.renameMethod naming) (Instruction.renameAll args)
  | .new type constructor args =>
    .new (type.rename naming) (Descriptor.rename naming constructor) (Instruction.renameAll args)
  | .instanceOf type value => .instanceOf (type.rename naming) value.rename
  | .multiNewArray type sizes => .multiNewArray (type.rename naming) (Instruction.renameAll sizes)
  | .newArray element size none => .newArray (element.rename naming) size.rename none
  | .newArray element size (some items) =>
    .newArray (element.rename naming) size.rename (some (Instruction.renameAll items))
  | .numberCompare left right => .numberCompare left.rename right.rename
  | .ternary condition thenValue elseValue =>
    .ternary condition.rename thenValue.rename elseValue.rename
  | .negative value => .negative value.rename
  | .operator op left right => .operator op left.rename right.rename
  | .instanceFieldAccess field target =>
    .instanceFieldAccess (field.renameField naming) target.rename
  | .localAccess slot => .localAccess (slot.rename naming)
  | .staticFieldAccess field => .staticFieldAccess (field.renameField naming)

/-- A condition under other class names. -/
def Condition.rename : Condition → Condition
  | .boolean value => .boolean value.rename
  | .and operands => .and (Condition.renameAll operands)
  | .or operands => .or (Condition.renameAll operands)
  | .inverse operand => .inverse operand.rename
  | .compare op left right => .compare op left.rename right.rename

def Instruction.renameAll : List Instruction → List Instruction
  | [] => []
  | i :: rest => i.rename :: Instruction.renameAll rest

def Condition.renameAll : List Condition → List Condition
  | [] => []
  | c :: rest => c.rename :: Condition.renameAll rest

end

mutual

/-- A statement under other class names. -/
def Statement.rename : Statement → Statement
  | .arrayAssignment array index value =>
    .arrayAssignment (array.rename naming) (index.rename naming) (value.rename naming)
  | .instanceFieldAssignment field target value =>
    .instanceFieldAssignment (field.renameField naming) (target.rename naming)
      (value.rename naming)
  | .staticFieldAssignment field value =>
    .staticFieldAssignment (field.renameField naming) (value.rename naming)
  | .localAssignment slot value => .localAssignment (slot.rename naming) (value.rename naming)
  | .breakLoop => .breakLoop
  | .doWhile condition body => .doWhile (condition.rename naming) (Statement.renameAll body)
  | .forLoop first condition next body =>
    .forLoop
      (match first with
        | none => none
        | some s => some s.rename)
      (condition.map (Condition.rename naming))
      (match next with
        | none => none
        | some s => some s.rename)
      (Statement.renameAll body)
  | .forEach slot collection body =>
    .forEach (slot.rename naming) (collection.rename naming) (Statement.renameAll body)
  | .ifElse condition body elifs elseBody =>
    .ifElse (condition.rename naming) (Statement.renameAll body) (Elif.renameAll elifs)
      (match elseBody with
        | none => none
        | some last => some (Statement.renameAll last))
  | .switchOn value cases => .switchOn (value.rename naming) (Case.renameAll cases)
  | .tryCatch body catches => .tryCatch (Statement.renameAll body) (CatchBlock.renameAll catches)
  | .whileLoop condition body => .whileLoop (condition.rename naming) (Statement.renameAll body)
  | .comment lines => .comment lines
  | .increment slot amount => .increment (slot.rename naming) amount
  | .returnValue value => .returnValue (value.map (Instruction.rename naming))
  | .throwValue value => .throwValue (value.rename naming)
  | .invoke value => .invoke (value.rename naming)

def Statement.renameAll : List Statement → List Statement
  | [] => []
  | s :: rest => s.rename :: Statement.renameAll rest

def Elif.renameAll : List Elif → List Elif
  | [] => []
  | .mk condition body :: rest =>
    .mk (condition.rename naming) (Statement.renameAll body) :: Elif.renameAll rest

def Case.renameAll : List Case → List Case
  | [] => []
  | .mk indices isDefault body :: rest =>
    .mk indices isDefault (Statement.renameAll body) :: Case.renameAll rest

def CatchBlock.renameAll : List CatchBlock → List CatchBlock
  | [] => []
  | .mk exceptions slot body :: rest =>
    .mk (exceptions.map naming) (slot.rename naming) (Statement.renameAll body) ::
      CatchBlock.renameAll rest

end

/-! ## Programs -/

def TypeEntry.rename (t : TypeEntry) : TypeEntry :=
  { t with
    name := naming t.name
    superclass := t.superclass.map naming
    interfaces := t.interfaces.map naming
    signature := t.signature.map (ClassSignature.rename naming) }

def MethodEntry.rename (m : MethodEntry) : MethodEntry :=
  { m with
    descriptor := Descriptor.rename naming m.descriptor
    signature := m.signature.rename naming
    body := m.body.map (Statement.renameAll naming) }

def FieldEntry.rename (f : FieldEntry) : FieldEntry :=
  { f with
    descriptor := Descriptor.renameType naming f.descriptor
    type := f.type.rename naming }

/-- A program under other class names. -/
def Program.rename (p : Program) : Program where
  types := p.types.map (TypeEntry.rename naming)
  methods := p.methods.map (MethodEntry.rename naming)
  fields := p.fields.map (FieldEntry.rename naming)
  byName := .ofList (p.byName.toList.map fun (name, t) => (naming name, t))

end

/-! ## Renaming signatures -/

namespace TypeSig

theorem rename_rename (first second : String → String) :
    (∀ s : TypeSig, (s.rename first).rename second = s.rename (second ∘ first)) ∧
    ∀ args : List TypeArg, TypeArg.renameAll second (TypeArg.renameAll first args) =
      TypeArg.renameAll (second ∘ first) args := by
  apply TypeSig.rename.mutual_induct
  all_goals
    intros
    simp_all [TypeSig.rename, TypeArg.renameAll]

theorem rename_of_fixed (naming : String → String) :
    (∀ s : TypeSig, (∀ name ∈ s.classNames, naming name = name) → s.rename naming = s) ∧
    ∀ args : List TypeArg, (∀ name ∈ TypeArg.listClassNames args, naming name = name) →
      TypeArg.renameAll naming args = args := by
  apply TypeSig.rename.mutual_induct
  all_goals
    intros
    simp_all [TypeSig.rename, TypeArg.renameAll, TypeSig.classNames, TypeArg.listClassNames]

theorem classNames_rename (naming : String → String) :
    (∀ s : TypeSig, (s.rename naming).classNames = s.classNames.map naming) ∧
    ∀ args : List TypeArg, TypeArg.listClassNames (TypeArg.renameAll naming args) =
      (TypeArg.listClassNames args).map naming := by
  apply TypeSig.rename.mutual_induct
  all_goals
    intros
    simp_all [TypeSig.rename, TypeArg.renameAll, TypeSig.classNames, TypeArg.listClassNames]

/-- Renaming spells other names in the same places. -/
theorem IsErased.rename {naming : String → String} :
    ∀ {s : TypeSig}, s.IsErased → (s.rename naming).IsErased
  | primitive _, erased => erased
  | .class _ _, erased => by
      rw [IsErased] at erased
      rw [erased]
      rfl
  | array element, erased => IsErased.rename (s := element) erased
  | var _, erased => erased.elim

/-- A type under other names is readable if these are not empty and hold no semicolon. -/
theorem IsReadable.rename {naming : String → String} : ∀ {s : TypeSig}, s.IsReadable →
    (∀ name ∈ s.classNames, (naming name).toList ≠ [] ∧ ';' ∉ (naming name).toList) →
    (s.rename naming).IsReadable
  | primitive _, readable, _ => readable
  | .class own _, readable, names => by
      obtain rfl := readable.1
      obtain ⟨filled, ended⟩ := names own List.mem_cons_self
      exact ⟨rfl, by simpa using filled, ended⟩
  | array element, readable, names => IsReadable.rename (s := element) readable names
  | var _, readable, _ => readable.elim

theorem element_rename (naming : String → String) :
    ∀ s : TypeSig, (s.rename naming).element = (s.element.1, s.element.2.map naming)
  | primitive _ => rfl
  | .class _ _ => rfl
  | array inner => by rw [TypeSig.rename, element, element_rename naming inner, element]
  | var _ => rfl

/-- The class of the elements is all an erased signature names. -/
theorem IsErased.classNames_eq : ∀ {s : TypeSig}, s.IsErased → s.classNames = s.element.2.toList
  | primitive _, _ => rfl
  | .class _ _, erased => by
      rw [IsErased] at erased
      rw [erased]
      rfl
  | array inner, erased => IsErased.classNames_eq (s := inner) erased
  | var _, erased => erased.elim

end TypeSig

namespace MethodSignature

variable {naming : String → String}

/-- Renaming is undone by what takes all names back. -/
theorem rename_back {back : String → String} {s : MethodSignature}
    (inverse : ∀ name ∈ s.classNames, back (naming name) = name) :
    (s.rename naming).rename back = s := by
  have undo : ∀ sig : TypeSig, (∀ name ∈ sig.classNames, back (naming name) = name) →
      (sig.rename naming).rename back = sig := by
    intro sig inverse
    rw [(TypeSig.rename_rename naming back).1]
    exact (TypeSig.rename_of_fixed (back ∘ naming)).1 sig inverse
  have params : (s.params.map (TypeSig.rename naming)).map (TypeSig.rename back) = s.params := by
    rw [List.map_map]
    conv_rhs => rw [← List.map_id s.params]
    apply List.map_congr_left
    intro param member
    apply undo
    intro name inside
    exact inverse name (List.mem_append_left _ (List.mem_flatMap.mpr ⟨param, member, inside⟩))
  rw [rename, rename, params, undo s.ret fun name inside =>
    inverse name (List.mem_append_right _ inside)]

/-- A signature under other names can be spelled if these names can. -/
theorem IsSpelled.rename {s : MethodSignature} (spelled : s.IsSpelled)
    (names : ∀ name ∈ s.classNames, Descriptor.CanSpell (naming name)) :
    (s.rename naming).IsSpelled := by
  have renamed : ∀ sig : TypeSig, sig.IsSpelled → (∀ name ∈ sig.classNames, name ∈ s.classNames) →
      (sig.rename naming).IsSpelled := by
    intro sig spelled among
    refine ⟨spelled.erased.rename, ?_⟩
    rw [(TypeSig.classNames_rename naming).1, List.forall_mem_map]
    exact fun name inside => names name (among name inside)
  constructor
  · intro param member
    obtain ⟨sig, listed, rfl⟩ := List.mem_map.mp member
    exact renamed sig (spelled.params sig listed) fun name inside =>
      List.mem_append_left _ (List.mem_flatMap.mpr ⟨sig, listed, inside⟩)
  · exact renamed s.ret spelled.ret fun name inside => List.mem_append_right _ inside

end MethodSignature

/-! ## Renaming descriptors -/

namespace Descriptor

/-- A method descriptor whose class names can be spelled, as they are and renamed. -/
structure Survives (naming : String → String) (text : String) : Prop where
  readable : (MethodSignature.ofDescriptor? text).isSome = true
  before : ∀ name ∈ classNames text, CanSpell name
  after : ∀ name ∈ classNames text, CanSpell (naming name)

variable {naming : String → String} {text text' : String}

/-- What survives spells a signature, and its renamed text the renamed signature. -/
theorem Survives.spelled (survives : Survives naming text) :
    ∃ s : MethodSignature, s.descriptor = text ∧ s.classNames = classNames text ∧ s.IsSpelled ∧
      rename naming text = (s.rename naming).descriptor ∧ (s.rename naming).IsSpelled := by
  obtain ⟨s, read⟩ := Option.isSome_iff_exists.mp survives.readable
  have names : classNames text = s.classNames := by rw [classNames, read]
  have spelled : s.IsSpelled :=
    MethodSignature.isSpelled_of_ofDescriptor? read (names ▸ survives.before)
  refine ⟨s, (MethodSignature.eq_of_ofDescriptor? read).1, names.symm, spelled, ?_, ?_⟩
  · rw [rename, read]
  · exact spelled.rename (names ▸ survives.after)

/-- The descriptor of a signature that can be spelled survives if the new names can be, too. -/
theorem survives_descriptor {s : MethodSignature} (spelled : s.IsSpelled)
    (after : ∀ name ∈ s.classNames, CanSpell (naming name)) :
    classNames s.descriptor = s.classNames ∧ Survives naming s.descriptor := by
  have read := MethodSignature.ofDescriptor?_descriptor spelled
  have names : classNames s.descriptor = s.classNames := by rw [classNames, read]
  exact ⟨names, by rw [read]; rfl, names.symm ▸ spelled.names, names.symm ▸ after⟩

/-- **Descriptors that differ still do so when renamed**, if no two of their names become one. -/
theorem rename_injOn {used : Set String} (injective : Set.InjOn naming used)
    (survives : Survives naming text) (survives' : Survives naming text')
    (among : ∀ name ∈ classNames text, name ∈ used)
    (among' : ∀ name ∈ classNames text', name ∈ used)
    (same : rename naming text = rename naming text') : text = text' := by
  obtain ⟨s, rfl, names, -, renamed, spelled⟩ := survives.spelled
  obtain ⟨s', rfl, names', -, renamed', spelled'⟩ := survives'.spelled
  have signatures : s.rename naming = s'.rename naming := by
    have read := MethodSignature.ofDescriptor?_descriptor spelled
    rw [← renamed, same, renamed', MethodSignature.ofDescriptor?_descriptor spelled'] at read
    exact (Option.some.inj read).symm
  have inverse := injective.leftInvOn_invFunOn
  have back : (s.rename naming).rename (Function.invFunOn naming used) = s :=
    MethodSignature.rename_back fun name inside => inverse (among name (names ▸ inside))
  have back' : (s'.rename naming).rename (Function.invFunOn naming used) = s' :=
    MethodSignature.rename_back fun name inside => inverse (among' name (names' ▸ inside))
  rw [← back, ← back', signatures]

end Descriptor

end Namesake
