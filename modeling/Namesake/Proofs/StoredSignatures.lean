import Namesake.Proofs.JsonForms

/-! # Storing a signature and reading it again

A wildcard is written as its bare name and every other signature as an object of one member, so each
is told from an absent one (`TypeSig.form_toJson`). Signatures, type arguments and the signatures of
methods and classes are read back as they were written, whatever characters stand in their names
(`TypeSig.ofJson?_toJson`, `MethodSignature.ofJson?_toJson`, `ClassSignature.ofJson?_toJson`).
-/

namespace Namesake

open Json (choice?_obj fullRecord?_obj)

theorem Wildcard.ofJson?_toJson (w : Wildcard) : ofJson? w.toJson = some w := by
  cases w <;> rfl

/-! ## Types -/

/-- The name of the kind of a signature. -/
def TypeSig.kind : TypeSig → String
  | .primitive _ => "Primitive"
  | .class .. => "Class"
  | .array _ => "Array"
  | .var _ => "Var"

theorem TypeSig.form_toJson (s : TypeSig) : s.toJson.Form s.kind False := by
  cases s <;> rw [toJson] <;> exact .carrying id _

mutual

/-- A signature is read back as it was written, with all its type arguments. -/
theorem TypeSig.ofJson?_toJson (s : TypeSig) : TypeSig.ofJson? s.toJson = some s := by
  rw [TypeSig.ofJson?]
  cases s
  all_goals rw [TypeSig.toJson, choice?_obj, Option.bind_eq_bind, Option.bind_some]
  case primitive code => simp [Json.char?_singleton]
  case «class» name args => simp [TypeArg.mapM_listToJson args]
  case array element => simp [TypeSig.ofJson?_toJson element]
  case var name => simp

theorem TypeArg.ofJson?_toJson (arg : TypeArg) : TypeArg.ofJson? arg.toJson = some arg := by
  obtain ⟨w, sig⟩ := arg
  rw [TypeArg.ofJson?]
  cases sig
  all_goals rw [TypeArg.toJson, fullRecord?_obj, Option.bind_eq_bind, Option.bind_some]
  case none => simp [Wildcard.ofJson?_toJson]
  case some sig =>
    -- with this at hand, `simp` passes over the arm for `null`
    have present : sig.toJson ≠ .null := sig.form_toJson.ne_null
    simp [Wildcard.ofJson?_toJson, TypeSig.ofJson?_toJson sig]

theorem TypeArg.mapM_listToJson (args : List TypeArg) :
    (TypeArg.listToJson args).mapM TypeArg.ofJson? = some args := by
  cases args with
  | nil => rfl
  | cons arg rest =>
      rw [TypeArg.listToJson, List.mapM_cons, TypeArg.ofJson?_toJson arg,
        TypeArg.mapM_listToJson rest]
      rfl

end

theorem TypeSig.optional?_toJson (sig : Option TypeSig) :
    Json.optional? ofJson? (.ofOption toJson sig) = some sig :=
  Json.optional?_ofOption (fun s _ => s.form_toJson.ne_null) fun s _ => s.ofJson?_toJson

theorem TypeSig.list?_toJson (l : List TypeSig) :
    Json.list? ofJson? (.ofList toJson l) = some l :=
  Json.list?_ofList fun s _ => s.ofJson?_toJson

/-! ## Methods and classes -/

theorem MethodSignature.ofJson?_toJson (s : MethodSignature) : ofJson? s.toJson = some s := by
  rw [ofJson?, toJson, fullRecord?_obj, Option.bind_eq_bind, Option.bind_some]
  simp [TypeSig.list?_toJson, TypeSig.ofJson?_toJson]

theorem ClassSignature.ofJson?_toJson (s : ClassSignature) : ofJson? s.toJson = some s := by
  rw [ofJson?, toJson, fullRecord?_obj, Option.bind_eq_bind, Option.bind_some]
  simp [Json.list?_str, TypeSig.optional?_toJson, TypeSig.list?_toJson]

end Namesake
