import Namesake.Json.Basic
import Namesake.Signature.Basic

/-! # Signatures as JSON

A signature is a choice among named forms. A wildcard is written as its name, a class and a type
argument as an object of their parts. The parts of a type argument, a method signature or a class
signature may also be read from an array that lists all of them in their order.
-/

namespace Namesake

namespace Wildcard

def toJson : Wildcard → Json
  | exact => .str "None"
  | .extends => .str "Extends"
  | super => .str "Super"
  | any => .str "Any"

def ofJson? (j : Json) : Option Wildcard :=
  match j.name? with
  | some "None" => some exact
  | some "Extends" => some .extends
  | some "Super" => some super
  | some "Any" => some any
  | _ => none

end Wildcard

mutual

def TypeSig.toJson : TypeSig → Json
  | .primitive code => .obj [("Primitive", .str (String.ofList [code]))]
  | .class name args =>
    .obj [("Class", .obj [("name", .str name), ("args", .arr (TypeArg.listToJson args))])]
  | .array element => .obj [("Array", element.toJson)]
  | .var name => .obj [("Var", .str name)]

def TypeArg.toJson : TypeArg → Json
  | .mk w none => .obj [("wildcard", w.toJson), ("sig", .null)]
  | .mk w (some sig) => .obj [("wildcard", w.toJson), ("sig", sig.toJson)]

def TypeArg.listToJson : List TypeArg → List Json
  | [] => []
  | arg :: rest => arg.toJson :: TypeArg.listToJson rest

end

mutual

def TypeSig.ofJson? (j : Json) : Option TypeSig := do
  match ← j.choice? with
  | .carrying "Primitive" ⟨body, _⟩ => return .primitive (← body.char?)
  | .carrying "Class" ⟨body, _⟩ =>
    let name ← body.required "name" Json.str?
    let ⟨args, _⟩ ← body.member? "args"
    return .class name (← (← args.items?).mapM fun ⟨arg, _⟩ => TypeArg.ofJson? arg)
  | .carrying "Array" ⟨body, _⟩ => return .array (← TypeSig.ofJson? body)
  | .carrying "Var" ⟨body, _⟩ => return .var (← body.str?)
  | _ => none
termination_by sizeOf j

def TypeArg.ofJson? (j : Json) : Option TypeArg := do
  let r ← j.fullRecord? ["wildcard", "sig"]
  let wildcard ← r.required "wildcard" Wildcard.ofJson?
  match r.part? "sig" with
  | none | some ⟨.null, _⟩ => return .mk wildcard none
  | some ⟨sig, _⟩ => return .mk wildcard (some (← TypeSig.ofJson? sig))
termination_by sizeOf j

end

namespace MethodSignature

def toJson (s : MethodSignature) : Json :=
  .obj [("params", .ofList TypeSig.toJson s.params), ("ret", s.ret.toJson)]

def ofJson? (j : Json) : Option MethodSignature := do
  let r ← j.fullRecord? ["params", "ret"]
  let params ← r.required "params" (Json.list? TypeSig.ofJson?)
  let ret ← r.required "ret" TypeSig.ofJson?
  return ⟨params, ret⟩

end MethodSignature

namespace ClassSignature

def toJson (s : ClassSignature) : Json :=
  .obj [("type_params", .ofList .str s.typeParams),
    ("superclass", .ofOption TypeSig.toJson s.superclass),
    ("interfaces", .ofList TypeSig.toJson s.interfaces)]

def ofJson? (j : Json) : Option ClassSignature := do
  let r ← j.fullRecord? ["type_params", "superclass", "interfaces"]
  let typeParams ← r.required "type_params" (Json.list? Json.str?)
  let superclass ← r.optional "superclass" TypeSig.ofJson?
  let interfaces ← r.required "interfaces" (Json.list? TypeSig.ofJson?)
  return ⟨typeParams, superclass, interfaces⟩

end ClassSignature

end Namesake
