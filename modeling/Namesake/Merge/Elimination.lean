import Namesake.Merge.State
import Namesake.SortedMap.Sole

/-! # Matching members by elimination

Members that are not matched yet are keyed by their descriptors, with every class replaced by a name
both builds agree on: the plain name of a confirmed type, the name of a type outside the program. A
field of a type that is not confirmed has the key `*`. A key that one member alone has on both sides
pairs the two.
-/

namespace Namesake

/-- The name both builds agree on for a class of the old one. -/
def oldClassKey? (c : Context) (l : Ledger) (name : String) : Option String :=
  match c.old.program.typeNamed? name with
  | none => some name
  | some t => (l.types.target? (.real t)).map fun _ => c.oldTypeName name

/-- The name both builds agree on for a class of the new one. -/
def newClassKey? (c : Context) (l : Ledger) (name : String) : Option String :=
  match c.new.program.typeNamed? name with
  | none => some name
  | some _ => c.newTypeName? l name

/-- The key of a field descriptor. -/
def fieldKey (classKey? : String → Option String) (descriptor : String) : String :=
  match Descriptor.elementClass descriptor with
  | (depth, some name) =>
    match classKey? name with
    | some key => String.ofList (List.replicate depth '[') ++ "L" ++ key ++ ";"
    | none => "*"
  | (_, none) => descriptor

/-- The key of a method. Names that start with a bracket are the same in every build. -/
def methodKey (classKey? : String → Option String) (name descriptor : String) : String :=
  (if name.toList.head? == some '<' then name else "") ++
    "(" ++ String.join ((Descriptor.splitParams descriptor).map (fieldKey classKey?)) ++ ")" ++
    fieldKey classKey? (Descriptor.returnPart descriptor)

/-- The pairs of items whose key occurs once on each side, in key order. -/
def discretePairs {ι : Type} (old new : List (String × ι)) : List (ι × ι) :=
  let olds := soleItems old
  (soleItems new).toList.filterMap fun (key, n) => (olds.get? key).map fun o => (o, n)

/-- Pair the unmatched ones of some methods by elimination. -/
def eliminateMethods (c : Context) (l : Ledger) (olds news : List MethodId) : List Ballot :=
  let old := (olds.filter fun m => !l.methods.isConfirmed (.real m)).map fun m =>
    let e := c.old.program.method m
    (methodKey (oldClassKey? c l) e.name e.descriptor, m)
  let new := (news.filter fun m => !l.methods.isClaimed m).map fun m =>
    let e := c.new.program.method m
    (methodKey (newClassKey? c l) e.name e.descriptor, m)
  (discretePairs old new).map fun (o, n) => .method o n

/-- Pair the unmatched ones of some fields by elimination. -/
def eliminateFields (c : Context) (l : Ledger) (olds news : List FieldId) : List Ballot :=
  let old := (olds.filter fun f => !l.fields.isConfirmed (.real f)).map fun f =>
    (fieldKey (oldClassKey? c l) (c.old.program.field f).descriptor, f)
  let new := (news.filter fun f => !l.fields.isClaimed f).map fun f =>
    (fieldKey (newClassKey? c l) (c.new.program.field f).descriptor, f)
  (discretePairs old new).map fun (o, n) => .field o n

namespace Program

/-- The instance fields a type declares. -/
def instanceFields (p : Program) (id : TypeId) : List FieldId :=
  (p.type id).fields.filter fun f => !(p.field f).isStatic

/-- The static fields a type declares. -/
def staticFields (p : Program) (id : TypeId) : List FieldId :=
  (p.type id).fields.filter fun f => (p.field f).isStatic

end Program

/-- Vote for fields of confirmed types by elimination. -/
def matchDiscreteFields (c : Context) (l : Ledger) : List Ballot :=
  let (old, new) := (c.old.program, c.new.program)
  l.types.pairs.flatMap fun (o, n) =>
    eliminateFields c l (old.instanceFields o) (new.instanceFields n) ++
      eliminateFields c l (old.staticFields o) (new.staticFields n)

/-- Vote for methods of confirmed types by elimination. -/
def matchDiscreteMethods (c : Context) (l : Ledger) : List Ballot :=
  let (old, new) := (c.old.program, c.new.program)
  l.types.pairs.flatMap fun (o, n) =>
    eliminateMethods c l (old.instanceMethods o) (new.instanceMethods n) ++
      eliminateMethods c l (old.staticMethods o) (new.staticMethods n)

end Namesake
