import Namesake.Signature.Descriptor
import Namesake.SortedMap.Lemmas

/-! # Mapping sets

The plain names of one build. A type is keyed by its name in the build, a field by its owner and
name, a method by its owner, name and descriptor. The first name given to a key stays, and no two
types share a plain name, so types can also be looked up by it.
-/

namespace Namesake

/-- The known plain names of a build. -/
structure MappingSet where
  /-- Plain names of types. -/
  types : SortedMap String String
  /-- The type that bears a plain name. -/
  inverse : SortedMap String String
  /-- Plain names of fields, by owner and name. -/
  fields : SortedMap String (SortedMap String String)
  /-- Plain names of methods, by owner, then name and descriptor. -/
  methods : SortedMap String (SortedMap (String × String) String)
deriving DecidableEq

namespace MappingSet

def empty : MappingSet := ⟨∅, ∅, ∅, ∅⟩

instance : EmptyCollection MappingSet := ⟨empty⟩
instance : Inhabited MappingSet := ⟨empty⟩

def isEmpty (s : MappingSet) : Bool := s.types.isEmpty && s.fields.isEmpty && s.methods.isEmpty

/-! ## Looking up -/

/-- The plain name of a type. -/
def mapType? (s : MappingSet) (name : String) : Option String := s.types.get? name

/-- The plain name of a type, or its own name where it has none. -/
def mapType (s : MappingSet) (name : String) : String := (s.mapType? name).getD name

/-- The type that bears a plain name. -/
def inverseType? (s : MappingSet) (plain : String) : Option String := s.inverse.get? plain

/-- The plain name of a field. -/
def mapField? (s : MappingSet) (owner name : String) : Option String :=
  s.fields.get? owner >>= (·.get? name)

/-- The plain name of a method. -/
def mapMethod? (s : MappingSet) (owner name descriptor : String) : Option String :=
  s.methods.get? owner >>= (·.get? (name, descriptor))

/-- All types with their plain names, in name order. -/
def typeList (s : MappingSet) : List (String × String) := s.types.toList

/-- All fields: owner, name and plain name. -/
def fieldList (s : MappingSet) : List (String × String × String) :=
  s.fields.toList.flatMap fun (owner, names) =>
    names.toList.map fun (name, plain) => (owner, name, plain)

/-- All methods: owner, name, descriptor and plain name. -/
def methodList (s : MappingSet) : List (String × String × String × String) :=
  s.methods.toList.flatMap fun (owner, names) =>
    names.toList.map fun ((name, descriptor), plain) => (owner, name, descriptor, plain)

def typeCount (s : MappingSet) : Nat := s.types.size
def fieldCount (s : MappingSet) : Nat := s.fieldList.length
def methodCount (s : MappingSet) : Nat := s.methodList.length

/-! ## Adding -/

/-- Name a type, unless it has a name already or the name is taken. -/
def addType? (s : MappingSet) (name plain : String) : Option MappingSet :=
  if s.types.contains name || s.inverse.contains plain then none
  else some { s with types := s.types.insert name plain, inverse := s.inverse.insert plain name }

/-- Name a field, unless it has a name already. -/
def addField? (s : MappingSet) (owner name plain : String) : Option MappingSet :=
  let names := s.fields.getD owner ∅
  if names.contains name then none
  else some { s with fields := s.fields.insert owner (names.insert name plain) }

/-- Name a method, unless it has a name already. -/
def addMethod? (s : MappingSet) (owner name descriptor plain : String) : Option MappingSet :=
  let names := s.methods.getD owner ∅
  if names.contains (name, descriptor) then none
  else some { s with methods := s.methods.insert owner (names.insert (name, descriptor) plain) }

/-- Name a type where that is possible. -/
def addType (s : MappingSet) (name plain : String) : MappingSet := (s.addType? name plain).getD s

/-- Name a field where that is possible. -/
def addField (s : MappingSet) (owner name plain : String) : MappingSet :=
  (s.addField? owner name plain).getD s

/-- Name a method where that is possible. -/
def addMethod (s : MappingSet) (owner name descriptor plain : String) : MappingSet :=
  (s.addMethod? owner name descriptor plain).getD s

/-- Whether the plain name of a type starts with one of the given beginnings. -/
def isExcluded (s : MappingSet) (beginnings : List String) (name : String) : Bool :=
  match s.mapType? name with
  | some plain => beginnings.any fun b => b.toList.isPrefixOf plain.toList
  | none => false

/-- The set without the types whose plain names start with one of the given beginnings, and
without their members. -/
def excludingPackages (s : MappingSet) (beginnings : List String) : MappingSet :=
  if beginnings.isEmpty then s
  else
    let kept := fun name => !s.isExcluded beginnings name
    let types := (s.typeList.filter fun e => kept e.1).foldl
      (fun t (name, plain) => t.addType name plain) ∅
    let fields := (s.fieldList.filter fun e => kept e.1).foldl
      (fun t (owner, name, plain) => t.addField owner name plain) types
    (s.methodList.filter fun e => kept e.1).foldl
      (fun t (owner, name, descriptor, plain) => t.addMethod owner name descriptor plain) fields

/-! ## Descriptors -/

/-- A field descriptor with its class renamed. -/
def mapFieldDescriptor (s : MappingSet) (text : String) : String :=
  let brackets := text.toList.takeWhile (· == '[')
  let element := text.toList.dropWhile (· == '[')
  match Descriptor.enclosedName? element with
  | some name =>
    String.ofList brackets ++ "L" ++ s.mapType (String.ofList name) ++ ";"
  | none => text

/-- Cut parameter text into its units. A unit is one character or a class from `L` to its semicolon,
with the brackets in front of it; what is left over at the end is a unit too. `current` holds the
unit under way, latest character first. -/
def parameterUnits (current : List Char) (inClass : Bool) : List Char → List (List Char)
  | [] => if current.isEmpty then [] else [current.reverse]
  | c :: rest =>
    if inClass then
      if c == ';' then (c :: current).reverse :: parameterUnits [] false rest
      else parameterUnits (c :: current) true rest
    else if c == '[' then parameterUnits (c :: current) false rest
    else if c == 'L' then parameterUnits (c :: current) true rest
    else (c :: current).reverse :: parameterUnits [] false rest

/-- A method descriptor with all its classes renamed. The parameters end at the first closing
parenthesis; a text without one is taken for a field descriptor. -/
def mapDescriptor (s : MappingSet) (text : String) : String :=
  match Text.splitFirst? ')' text.toList with
  | none => s.mapFieldDescriptor text
  | some (front, result) =>
    let params := match front with
      | '(' :: rest => rest
      | front => front
    let mapped := (parameterUnits [] false params).map (s.mapFieldDescriptor <| String.ofList ·)
    "(" ++ String.join mapped ++ ")" ++ s.mapFieldDescriptor (String.ofList result)

end MappingSet

end Namesake
