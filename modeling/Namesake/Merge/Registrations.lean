import Namesake.Merge.Expansion
import Namesake.Registry

/-! # Reading registration methods

Registration methods assign static fields, one after the other, from calls that carry a text key.
The order may change between builds, the keys do not: fields are voted for by key.
-/

namespace Namesake

/-- The plain names of an old method. What has none keeps its own. -/
def oldMethodKey (c : Context) (id : MethodId) : MethodKey :=
  let m := c.old.program.method id
  let owner := c.old.program.methodOwnerName id
  { owner := c.names.mapType owner
    name := (c.names.mapMethod? owner m.name m.descriptor).getD m.name
    descriptor := c.names.mapDescriptor m.descriptor }

namespace Instruction

/-- What is cast, where the value is a cast. -/
def stripCast : Instruction → Instruction
  | cast _ value => value
  | value => value

/-- What a chain of builder calls starts from. -/
def stripBuilders : Instruction → Instruction
  | instanceInvoke _ callee _ => callee.stripBuilders
  | value => value

end Instruction

namespace Program

/-- The static fields of the program that a body assigns at its top level, with the values. -/
def staticAssignments (p : Program) (body : List Statement) : List (FieldId × Instruction) :=
  body.filterMap fun
    | .staticFieldAssignment target value => do
      let f ← p.fieldNamed? (← p.typeNamed? target.owner) target.name
      guard (p.field f).isStatic
      return (f, value)
    | _ => none

end Program

/-- A static field that is assigned from a static factory. -/
structure Registration where
  field : FieldId
  /-- The factory, if it is part of the program. -/
  factory : Option MethodId
  /-- The key, if it is the only argument. -/
  key : Option String
deriving DecidableEq, Repr

/-- The registrations of a body, in order. -/
def registrations (p : Program) (body : List Statement) : List Registration :=
  (p.staticAssignments body).filterMap fun (field, value) =>
    match value.stripCast with
    | .staticInvoke method args =>
      let factory := do
        let m ← p.methodNamed? (← p.typeNamed? method.owner) method.name method.descriptor
        guard (p.method m).isStatic
        return m
      let key := match args with
        | [.stringConstant key] => some key
        | _ => none
      some ⟨field, factory, key⟩
    | _ => none

/-- The ballots of two initializers that register objects through a factory: for the last factory of
the old one with each of the new ones, and for the fields of each key, the last one counting in the
old body. -/
def registrationBallots (c : Context) (old new : List Statement) : List Ballot :=
  let olds := registrations c.old.program old
  let factory := (olds.filterMap (·.factory)).getLast?
  let keyed : SortedMap String FieldId :=
    .ofList (olds.filterMap fun r => r.key.map fun key => (key, r.field))
  (registrations c.new.program new).flatMap fun r =>
    (match factory, r.factory with
      | some o, some n => [.method o n]
      | _, _ => []) ++
    (match r.key >>= keyed.get? with
      | some f => [.field f r.field]
      | none => [])

/-- The fields that are built by constructors with a text key as first argument, by key. -/
def keyedConstructors (p : Program) (body : List Statement) :
    SortedMap String (FieldId × Instruction) :=
  .ofList <| (p.staticAssignments body).filterMap fun (field, value) =>
    match value.stripCast.stripBuilders with
    | call@(.new _ _ (.stringConstant key :: _)) => some (key, field, call)
    | _ => none

/-- The ballots of two tables of objects built under text keys: for the fields of each key and what
their constructor calls have in common. -/
def keyedTableBallots (c : Context) (l : Ledger) (old new : List Statement) : List Ballot :=
  let olds := keyedConstructors c.old.program old
  (keyedConstructors c.new.program new).toList.flatMap fun (key, field, call) =>
    match olds.get? key with
    | none => []
    | some (oldField, oldCall) =>
      .field oldField field ::
        triedBallots c l (.instructions c.old.program c.new.program oldCall call)

/-- The ballots of a pair of registration methods. Without both bodies there are none. -/
def RegistrationHandler.ballots (handler : RegistrationHandler) (c : Context) (l : Ledger)
    (o n : MethodId) : List Ballot :=
  match (c.old.program.method o).body, (c.new.program.method n).body with
  | some old, some new =>
    match handler with
    | .registryInitializer => registrationBallots c old new
    | .keyedConstructorTable => keyedTableBallots c l old new
    | .skip => []
  | _, _ => []

/-- Read the confirmed registration methods; they are not compared any other way. -/
def mergeRegistrations (c : Context) (l : Ledger) : List Action :=
  l.methods.unmergedPairs.flatMap fun (o, n) =>
    match registry.get? (oldMethodKey c o) with
    | none => []
    | some handler => .mergedMethod o :: (handler.ballots c l o n).map .vote

end Namesake
