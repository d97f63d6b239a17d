import Namesake.Code.Walk
import Namesake.Program.Lookup

/-! # References

What the methods of a program read, write, call and create. What is part of the program is known by
number, everything else by its text. The index tells for every reference which methods make it.
-/

namespace Namesake

/-- A way to refer to something. -/
inductive Use where
  | read
  | write
  | invoke
  | create
  | createArray
deriving DecidableEq, Repr

/-- The place of a use in the order of references. -/
def Use.rank : Use → Nat
  | read => 0
  | write => 1
  | invoke => 2
  | create => 3
  | createArray => 4

theorem Use.rank_injective {a b : Use} (h : a.rank = b.rank) : a = b := by
  cases a <;> cases b <;> simp_all [rank]

/-- Something a method refers to, and how. -/
inductive Reference where
  | read (field : FieldId)
  | write (field : FieldId)
  | invoke (method : MethodId)
  | create (type : TypeId)
  | createArray (type : TypeId)
  /-- Something outside the program, by its text. -/
  | external (use : Use) (text : String)
deriving DecidableEq, Repr

namespace Reference

/-- References are ordered by their use and target; those that lead outside come last. -/
def rank : Reference → Nat × Nat × String
  | read f => (0, f.index, "")
  | write f => (1, f.index, "")
  | invoke m => (2, m.index, "")
  | create t => (3, t.index, "")
  | createArray t => (4, t.index, "")
  | external use text => (5, use.rank, text)

instance : KeyOrder Reference :=
  .ofRank rank fun {a b} h => by
    cases a <;> cases b <;> simp_all [rank]
    case read a b => cases a; cases b; simp_all
    case write a b => cases a; cases b; simp_all
    case invoke a b => cases a; cases b; simp_all
    case create a b => cases a; cases b; simp_all
    case createArray a b => cases a; cases b; simp_all
    case external => exact Use.rank_injective h.1

def isExternal : Reference → Bool
  | external .. => true
  | _ => false

end Reference

/-- The class at the bottom of an array type, or the class itself. -/
def TypeSig.innermostClass? : TypeSig → Option String
  | .array element => element.innermostClass?
  | .class name _ => some name
  | .primitive _ | .var _ => none

namespace Program

/-- A reference to a field. -/
def fieldReference (p : Program) (inside : FieldId → Reference) (use : Use) (r : MemberRef) :
    Reference :=
  match p.typeNamed? r.owner >>= fun t => p.findField? t r.name with
  | some f => inside f
  | none => .external use (r.owner ++ "." ++ r.name)

/-- A call of a method that was looked for. -/
def callReference (r : MemberRef) : Option MethodId → Reference
  | some m => .invoke m
  | none => .external .invoke (r.owner ++ "." ++ r.name ++ r.descriptor)

/-- A creation of something of a class. -/
def creation (p : Program) (inside : TypeId → Reference) (use : Use) (name? : Option String) :
    List Reference :=
  match name? with
  | none => []
  | some name =>
    match p.typeNamed? name with
    | some t => [inside t]
    | none => [.external use name]

/-- What a statement itself writes to. -/
def statementReferences (p : Program) : Statement → List Reference
  | .instanceFieldAssignment field _ _ | .staticFieldAssignment field _ =>
    [p.fieldReference .write .write field]
  | _ => []

/-- What an instruction itself refers to. -/
def instructionReferences (p : Program) : Instruction → List Reference
  | .instanceFieldAccess field _ | .staticFieldAccess field =>
    [p.fieldReference .read .read field]
  | .instanceInvoke method _ _ =>
    [callReference method (p.typeNamed? method.owner >>= fun t =>
      p.findMethod? t method.name method.descriptor)]
  | .staticInvoke method _ =>
    [callReference method (p.typeNamed? method.owner >>= fun t =>
      p.findStaticMethod? t method.name method.descriptor)]
  | .new type _ _ => p.creation .create .create type.className?
  | .newArray type _ _ | .multiNewArray type _ =>
    p.creation .createArray .createArray type.innermostClass?
  | _ => []

/-- All references a method makes. -/
def referencesOf (p : Program) (id : MethodId) : List Reference :=
  let body := (p.method id).statements
  (Body.statements body).flatMap p.statementReferences ++
    (Body.instructions body).flatMap p.instructionReferences

/-- The anonymous types a method creates, each as often as it does. -/
def anonymousSites (p : Program) (id : MethodId) : List TypeId :=
  (Body.instructions (p.method id).statements).filterMap fun
    | .new type _ _ => do
      let t ← p.typeNamed? (← type.className?)
      guard (p.type t).isAnonymous
      return t
    | _ => none

/-- The anonymous type a method creates, if it does so exactly once. -/
def soleAnonymousSite? (p : Program) (id : MethodId) : Option TypeId :=
  match p.anonymousSites id with
  | [only] => some only
  | _ => none

end Program

/-- The methods that make each reference, in order. -/
structure ReferenceIndex where
  entries : SortedMap Reference (List MethodId)
deriving DecidableEq

namespace ReferenceIndex

/-- The methods that make a reference. -/
def referrers (index : ReferenceIndex) (r : Reference) : List MethodId := index.entries.getD r []

/-- Add a method to those that make a reference. -/
def note (index : ReferenceIndex) (id : MethodId) (r : Reference) : ReferenceIndex :=
  if (index.referrers r).contains id then index
  else ⟨index.entries.insert r (index.referrers r ++ [id])⟩

/-- The index of a program. -/
def build (p : Program) : ReferenceIndex :=
  p.methodIds.foldl (fun index id => (p.referencesOf id).foldl (·.note id ·) index) ⟨∅⟩

/-- The references that lead outside the program, with the methods that make them. -/
def externals (index : ReferenceIndex) : List (Reference × List MethodId) :=
  index.entries.toList.filter (·.1.isExternal)

end ReferenceIndex

end Namesake
