import Namesake.Merge.State

/-! # Names that survive in the new build

A compiler-made bridge keeps the name of the method it forwards to, and the array of an enum's
constants has a name of its own. Such a member of the new program is confirmed for a placeholder
that carries the name.
-/

namespace Namesake

namespace Program

/-- The array field that the static initializer of a named enum fills with a new array. -/
def constantsField? (p : Program) (id : TypeId) : Option FieldId :=
  let t := p.type id
  if !t.isEnum || t.isAnonymous then none
  else do
    let initializer ← p.staticInitializer? id
    (p.method initializer).statements.findSome? fun
      | .staticFieldAssignment target (.newArray ..) => do
        guard (target.owner = t.name)
        let f ← p.fieldNamed? id target.name
        guard ((p.field f).isStatic && (p.field f).descriptor.toList.head? == some '[')
        return f
      | _ => none

/-- The call that makes up the whole body of a forwarding method. -/
def forwardedCall? (m : MethodEntry) : Option Instruction :=
  match m.signature.ret.isVoid, m.statements with
  | true, [.invoke call, _] => some call
  | false, [.returnValue (some call)] => some call
  | _, _ => none

/-- The instance method of its own type that a bridge forwards to. Names of one or two bytes tell
nothing. -/
def bridgeTarget? (p : Program) (id : TypeId) (bridge : MethodId) : Option MethodId :=
  let m := p.method bridge
  if !m.isSynthetic || m.name.utf8ByteSize ≤ 2 then none
  else
    match forwardedCall? m with
    | some (.instanceInvoke target _ _) => do
      guard (target.owner = (p.type id).name)
      let found ← p.methodNamed? id target.name target.descriptor
      guard !(p.method found).isStatic
      return found
    | _ => none

end Program

/-- Confirm what the compiler left a name in the new build for. -/
def matchBridges (c : Context) : List Action :=
  let p := c.new.program
  p.typeIds.flatMap fun t =>
    let owner := (p.type t).name
    ((p.constantsField? t).toList.map fun f =>
      .confirmField (.synthetic ⟨some owner, "$VALUES", some (p.field f).descriptor⟩) f) ++
    (p.instanceMethods t).filterMap fun bridge =>
      (p.bridgeTarget? t bridge).map fun m =>
        .confirmMethod
          (.synthetic ⟨some owner, (p.method bridge).name, some (p.method m).descriptor⟩) m

end Namesake
