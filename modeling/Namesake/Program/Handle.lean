import Namesake.SortedMap.Lemmas

/-! # Handles

What an old name belongs to: something of the old program, or a placeholder for something that is
not part of it and is known by its plain name only.
-/

namespace Namesake

/-- A placeholder that carries a plain name. -/
structure Synthetic where
  owner : Option String
  name : String
  descriptor : Option String
deriving DecidableEq, Repr, Inhabited

instance : KeyOrder Synthetic :=
  .ofRank (fun s => (s.owner, s.name, s.descriptor)) fun {a b} h => by cases a; cases b; simp_all

/-- Something of a program, or a placeholder. -/
inductive Handle (ι : Type) where
  | real (id : ι)
  | synthetic (placeholder : Synthetic)
deriving DecidableEq, Repr, Inhabited

namespace Handle

variable {ι : Type}

def real? : Handle ι → Option ι
  | real id => some id
  | synthetic _ => none

/-- What is part of a program comes before every placeholder. -/
instance [KeyOrder ι] : KeyOrder (Handle ι) where
  before
    | real a, real b => KeyOrder.before a b
    | real _, synthetic _ => true
    | synthetic _, real _ => false
    | synthetic a, synthetic b => KeyOrder.before a b
  irrefl a := by cases a <;> simp [KeyOrder.irrefl]
  trans {a b c} h h' := by
    cases a <;> cases b <;> cases c <;> simp_all <;> exact KeyOrder.trans h h'
  connex {a b} h h' := by
    cases a <;> cases b <;> simp_all <;> exact KeyOrder.connex h h'

end Handle

end Namesake
