/-! # Generic signatures

The types that fields, parameters and results are declared with. A signature may carry type
arguments and type variables; erased, it is what a descriptor spells out.
-/

namespace Namesake

/-- How a type argument bounds the type it stands for. -/
inductive Wildcard where
  /-- Exactly the given type. -/
  | exact
  | extends
  | super
  /-- Any type at all. -/
  | any
deriving DecidableEq, Repr, Inhabited

mutual

/-- A reference to a type. -/
inductive TypeSig where
  /-- A primitive type by its one-character code. -/
  | primitive (code : Char)
  /-- A class by its internal name. -/
  | class (name : String) (args : List TypeArg)
  | array (element : TypeSig)
  /-- A type variable. -/
  | var (name : String)

/-- A type argument. Only the unbounded wildcard lacks a signature. -/
inductive TypeArg where
  | mk (wildcard : Wildcard) (sig : Option TypeSig)

end

deriving instance Repr for TypeSig, TypeArg

instance : Inhabited TypeSig := ⟨.primitive 'V'⟩
instance : Inhabited TypeArg := ⟨.mk .any none⟩

mutual

def TypeSig.decEq : (a b : TypeSig) → Decidable (a = b)
  | .primitive c, .primitive d => decidable_of_iff (c = d) (by simp)
  | .class n as, .class m bs =>
    have := TypeArg.listDecEq as bs
    decidable_of_iff (n = m ∧ as = bs) (by simp)
  | .array a, .array b =>
    have := TypeSig.decEq a b
    decidable_of_iff (a = b) (by simp)
  | .var n, .var m => decidable_of_iff (n = m) (by simp)
  | .primitive _, .class .. | .primitive _, .array _ | .primitive _, .var _
  | .class .., .primitive _ | .class .., .array _ | .class .., .var _
  | .array _, .primitive _ | .array _, .class .. | .array _, .var _
  | .var _, .primitive _ | .var _, .class .. | .var _, .array _ => isFalse nofun

def TypeArg.decEq : (a b : TypeArg) → Decidable (a = b)
  | .mk w none, .mk v none => decidable_of_iff (w = v) (by simp)
  | .mk w (some a), .mk v (some b) =>
    have := TypeSig.decEq a b
    decidable_of_iff (w = v ∧ a = b) (by simp)
  | .mk _ none, .mk _ (some _) | .mk _ (some _), .mk _ none => isFalse (by simp)

def TypeArg.listDecEq : (as bs : List TypeArg) → Decidable (as = bs)
  | [], [] => isTrue rfl
  | a :: as, b :: bs =>
    have := TypeArg.decEq a b
    have := TypeArg.listDecEq as bs
    decidable_of_iff (a = b ∧ as = bs) (by simp)
  | [], _ :: _ | _ :: _, [] => isFalse (by simp)

end

instance : DecidableEq TypeSig := TypeSig.decEq
instance : DecidableEq TypeArg := TypeArg.decEq

namespace TypeArg

def wildcard : TypeArg → Wildcard
  | mk w _ => w

def sig : TypeArg → Option TypeSig
  | mk _ s => s

end TypeArg

namespace TypeSig

/-- The absence of a result. -/
def isVoid : TypeSig → Bool
  | primitive 'V' => true
  | _ => false

def isArray : TypeSig → Bool
  | array _ => true
  | _ => false

/-- The internal name of a class reference. -/
def className? : TypeSig → Option String
  | .class name _ => some name
  | _ => none

end TypeSig

/-- The parameter and result types of a method. -/
structure MethodSignature where
  params : List TypeSig
  ret : TypeSig
deriving DecidableEq, Repr, Inhabited

/-- What a class declares about its generic supertypes. -/
structure ClassSignature where
  typeParams : List String
  superclass : Option TypeSig
  interfaces : List TypeSig
deriving DecidableEq, Repr, Inhabited

/-- The generic reference to a supertype of the given name; the superclass comes first. -/
def ClassSignature.supertypeRef? (s : ClassSignature) (supertype : String) : Option TypeSig :=
  (s.superclass.toList ++ s.interfaces).find? fun sig => sig.className? = some supertype

end Namesake
