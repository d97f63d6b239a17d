import Namesake.Comparison.Basic

/-! # Comparing names and types

What both programs contain is voted for, everything else has to be called the same.
-/

namespace Namesake.Comparison

variable (old new : Program)

/-- The types two names stand for, if both are part of their programs. -/
def typePair? (a b : String) : Option (TypeId × TypeId) := do
  return (← old.typeNamed? a, ← new.typeNamed? b)

/-- Compare two names of types. -/
def typeNames (a b : String) : Comparison :=
  match typePair? old new a b with
  | some (o, n) => [.ballot (.type o n)]
  | none => same a b

/-- Compare two field descriptors. -/
def descriptors (a b : String) : Comparison :=
  match Descriptor.elementClass a, Descriptor.elementClass b with
  | (depth, some o), (depth', some n) =>
    if depth = depth' then
      match typePair? old new o n with
      | some (o, n) => [.ballot (.type o n)]
      | none => same a b
    else same a b
  | _, _ => same a b

/-- Compare two method descriptors: the parameters one by one, then the results. -/
def methodDescriptors (a b : String) : Comparison :=
  let as := Descriptor.splitParams a
  let bs := Descriptor.splitParams b
  same as.length bs.length ++ zip (descriptors old new) as bs ++
    descriptors old new (Descriptor.returnPart a) (Descriptor.returnPart b)

mutual

/-- Compare two types. Type variables always agree. -/
def typeSigs : TypeSig → TypeSig → Comparison
  | .primitive a, .primitive b => same a b
  | .var _, .var _ => []
  | .array a, .array b => typeSigs a b
  | .class a as, .class b bs =>
    same as.length bs.length ++ typeNames old new a b ++ typeArgs as bs
  | _, _ => [.differ]

/-- Compare type arguments one by one. -/
def typeArgs : List TypeArg → List TypeArg → Comparison
  | .mk w none :: as, .mk v none :: bs => same w v ++ typeArgs as bs
  | .mk w (some a) :: as, .mk v (some b) :: bs => same w v ++ typeSigs a b ++ typeArgs as bs
  | .mk _ none :: _, .mk _ (some _) :: _ | .mk _ (some _) :: _, .mk _ none :: _ => [.differ]
  | _, _ => []

end

/-- Compare two types that may be unknown. -/
def optionalTypes : Option TypeSig → Option TypeSig → Comparison
  | none, none => []
  | some a, some b => typeSigs old new a b
  | _, _ => [.differ]

/-- Compare two local variables by their types. -/
def locals (a b : Local) : Comparison := optionalTypes old new a.type b.type

/-- Compare two references to fields: their owners, then the fields they lead to. -/
def fieldRefs (a b : MemberRef) : Comparison :=
  match typePair? old new a.owner b.owner with
  | none => same a.owner b.owner ++ same a.name b.name
  | some (o, n) =>
    .ballot (.type o n) ::
      match old.findField? o a.name, new.findField? n b.name with
      | some f, some g => [.ballot (.field f g)]
      | _, _ => same a.name b.name

/-- Compare two references to methods: their owners, then the methods they lead to, as `findOld` and
`findNew` find them. -/
def methodRefs (findOld findNew : TypeId → String → String → Option MethodId) (a b : MemberRef) :
    Comparison :=
  match typePair? old new a.owner b.owner with
  | none => same a.owner b.owner ++ same a.name b.name
  | some (o, n) =>
    .ballot (.type o n) ::
      match findOld o a.name a.descriptor, findNew n b.name b.descriptor with
      | some m, some m' => [.ballot (.method m m')]
      | _, _ => same a.name b.name

end Namesake.Comparison
