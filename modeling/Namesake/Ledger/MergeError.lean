import Namesake.Program.Basic
import Namesake.Program.Handle
import Namesake.Text.Quoted

/-! # Refused confirmations

A match can only be confirmed onto a target that is fixed and free. Lack of evidence is never an
error.
-/

namespace Namesake

/-- Why a match of one kind cannot be confirmed. -/
inductive ConfirmError (ι : Type) where
  /-- No target is fixed for the old thing. -/
  | unsetTarget (old : Handle ι)
  /-- The target is confirmed for another old thing already. -/
  | targetClaimed (old : Handle ι) (target : ι) (holder : Handle ι)
deriving DecidableEq, Repr

/-- How things of a kind are called in messages. -/
class MatchKind (ι : Type) where
  kind : String
  label : String
  index : ι → Nat

instance : MatchKind TypeId := ⟨"type", "TypeId", TypeId.index⟩
instance : MatchKind MethodId := ⟨"method", "MethodId", MethodId.index⟩
instance : MatchKind FieldId := ⟨"field", "FieldId", FieldId.index⟩

/-- An optional text as it is shown in messages. -/
def shownOption : Option String → String
  | none => "None"
  | some text => "Some(" ++ Text.quoted text ++ ")"

/-- A placeholder as it is shown in messages. -/
def Synthetic.shown (s : Synthetic) : String :=
  "Synthetic \x7b owner: " ++ shownOption s.owner ++ ", name: " ++ Text.quoted s.name ++
    ", descriptor: " ++ shownOption s.descriptor ++ " \x7d"

section

variable {ι : Type} [MatchKind ι]

/-- A new thing as it is shown in messages. -/
def shownId (id : ι) : String :=
  MatchKind.label ι ++ "(" ++ toString (MatchKind.index id) ++ ")"

/-- An old thing as it is shown in messages. -/
def Handle.shown : Handle ι → String
  | real id => "Real(" ++ shownId id ++ ")"
  | synthetic s => "Synthetic(" ++ s.shown ++ ")"

/-- The wording of a refusal. -/
def ConfirmError.message : ConfirmError ι → String
  | unsetTarget old =>
    "confirmed " ++ MatchKind.kind ι ++ " match for " ++ old.shown ++ " without a target"
  | targetClaimed old target holder =>
    MatchKind.kind ι ++ " target " ++ shownId target ++ " (held by " ++ holder.shown ++ ") of " ++
      old.shown ++ " is already claimed"

end

/-- Why a merge stops. -/
inductive MergeError where
  | type (cause : ConfirmError TypeId)
  | method (cause : ConfirmError MethodId)
  | field (cause : ConfirmError FieldId)
deriving DecidableEq, Repr

namespace MergeError

/-- The wording of the cause. -/
def message : MergeError → String
  | type cause => cause.message
  | method cause => cause.message
  | field cause => cause.message

end MergeError

end Namesake
