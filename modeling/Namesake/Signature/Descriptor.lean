import Namesake.ModelError
import Namesake.Signature.Basic
import Namesake.Text.Split

/-! # Descriptors

A descriptor is the erased text of a signature: one letter for a primitive type, `Lname;` for a
class, a bracket in front of an element type for an array; a method lists its parameters in
parentheses and its result after them. Type arguments leave no trace, and a type variable is spelled
as the root class.

`TypeSig.descriptor` and `MethodSignature.descriptor` write descriptors, `TypeSig.ofDescriptor` and
`MethodSignature.ofDescriptor` read them; a text that is refused is named whole in the error.
-/

namespace Namesake

/-- The letters of the primitive types. -/
def isPrimitiveCode (c : Char) : Bool := "BCDFIJSZV".toList.contains c

namespace TypeSig

/-- The characters of a descriptor. -/
def erasedChars : TypeSig → List Char
  | primitive code => [code]
  | .class name _ => 'L' :: name.toList ++ [';']
  | array element => '[' :: element.erasedChars
  | var _ => "Ljava/lang/Object;".toList

/-- The erased descriptor. -/
def descriptor (s : TypeSig) : String := String.ofList s.erasedChars

/-- Read one descriptor off the front of a text. -/
def read? : List Char → Option (TypeSig × List Char)
  | [] => none
  | '[' :: rest => (read? rest).map fun (element, after) => (array element, after)
  | 'L' :: rest =>
    match Text.splitFirst? ';' rest with
    | some (name, after) =>
      if name.isEmpty then none else some (.class (String.ofList name) [], after)
    | none => none
  | c :: rest => if isPrimitiveCode c then some (primitive c, rest) else none

theorem read?_length {text after : List Char} {sig : TypeSig} (h : read? text = some (sig, after)) :
    after.length < text.length := by
  fun_induction read? text generalizing sig after with
  | case1 => simp at h
  | case2 rest ih =>
    obtain ⟨⟨element, after'⟩, found, equal⟩ := Option.map_eq_some_iff.1 h
    obtain ⟨-, rfl⟩ := Prod.mk.inj equal
    have := ih found
    simp only [List.length_cons]
    omega
  | case3 => simp at h
  | case4 rest name after' cut =>
    obtain ⟨-, rfl⟩ := Prod.mk.inj (Option.some.inj h)
    have := congrArg List.length (Text.splitFirst?_eq_some cut).1
    simp only [List.length_append, List.length_cons] at *
    omega
  | case5 => simp at h
  | case6 =>
    obtain ⟨-, rfl⟩ := Prod.mk.inj (Option.some.inj h)
    simp
  | case7 => simp at h

/-- Read descriptors up to the end of a text. -/
def readAll? (text : List Char) : Option (List TypeSig) :=
  if text.isEmpty then some []
  else
    match _h : read? text with
    | some (sig, after) => (readAll? after).map (sig :: ·)
    | none => none
termination_by text.length
decreasing_by exact read?_length _h

/-- The signature a text is the descriptor of. -/
def ofDescriptor? (text : String) : Option TypeSig :=
  match read? text.toList with
  | some (sig, []) => some sig
  | _ => none

/-- Read a descriptor, or tell which text is none. -/
def ofDescriptor (text : String) : Except ModelError TypeSig :=
  match ofDescriptor? text with
  | some sig => .ok sig
  | none => .error (.malformedDescriptor text)

end TypeSig

namespace MethodSignature

/-- The erased descriptor. -/
def descriptor (s : MethodSignature) : String :=
  String.ofList ('(' :: s.params.flatMap TypeSig.erasedChars ++ ')' :: s.ret.erasedChars)

/-- The signature a text is the descriptor of. The parameters end at the first closing
parenthesis. -/
def ofDescriptor? (text : String) : Option MethodSignature :=
  match text.toList with
  | '(' :: rest => do
    let (params, result) ← Text.splitFirst? ')' rest
    let params ← TypeSig.readAll? params
    match ← TypeSig.read? result with
    | (ret, []) => some ⟨params, ret⟩
    | _ => none
  | _ => none

/-- Read a method descriptor, or tell which text is none. -/
def ofDescriptor (text : String) : Except ModelError MethodSignature :=
  match ofDescriptor? text with
  | some sig => .ok sig
  | none => .error (.malformedDescriptor text)

end MethodSignature

namespace Descriptor

/-- The descriptors of the parameters of a method; none for a text that is no method descriptor. -/
def splitParams (text : String) : List String :=
  match MethodSignature.ofDescriptor? text with
  | some sig => sig.params.map TypeSig.descriptor
  | none => []

/-- What follows the last closing parenthesis; the whole text if there is none. -/
def returnPart (text : String) : String :=
  match Text.splitLast? ')' text.toList with
  | some (_, result) => String.ofList result
  | none => text

/-- The number of leading brackets of a text. -/
def depth (text : List Char) : Nat := (text.takeWhile (· == '[')).length

/-- The name between a leading `L` and a final semicolon, where it is not empty. -/
def enclosedName? : List Char → Option (List Char)
  | 'L' :: rest =>
    if rest.getLast? = some ';' && rest.length > 1 then some rest.dropLast else none
  | _ => none

/-- The array depth of a descriptor and the class its elements are of. -/
def elementClass (text : String) : Nat × Option String :=
  (depth text.toList,
    (enclosedName? (text.toList.dropWhile (· == '['))).map String.ofList)

end Descriptor

end Namesake
