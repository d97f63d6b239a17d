import Namesake.Program.Basic

/-! # Valid programs

A program is valid if its parts agree: the name index holds every type once, under its own name, and
every member is listed exactly once, by the type that owns it. `validate` names the first part that
does not.
-/

namespace Namesake.Program

/-- Check that the name index and the types agree. -/
def checkNames (p : Program) : Except ModelError Unit :=
  if p.byName.size ≠ p.types.length then
    let missing := p.types.find? fun t => !p.byName.contains t.name
    .error (.nameIndex ((missing.map (·.name)).getD ""))
  else
    p.byName.toList.forM fun (name, id) =>
      match p.types[id.index]? with
      | none => .error (.unknownType id.index)
      | some t => if t.name ≠ name then .error (.nameIndex name) else .ok ()

/-- Check the members one type lists against those listed so far, and add them to these. `member?`
gives the owner and the name of a member. -/
def checkListed {ι : Type} [DecidableEq ι] (member? : ι → Option (TypeId × String))
    (unknown : ι → ModelError) (owner : TypeId) (typeName : String) :
    (seen listed : List ι) → Except ModelError (List ι)
  | seen, [] => .ok seen
  | seen, id :: rest =>
    match member? id with
    | none => .error (unknown id)
    | some (actual, name) =>
      if actual ≠ owner || seen.contains id then
        .error (.misplacedMember (typeName ++ "." ++ name))
      else checkListed member? unknown owner typeName (id :: seen) rest

/-- Check the members of the types from a number on, and collect them. -/
def checkTypes (p : Program) (index : Nat) (methods : List MethodId) (fields : List FieldId) :
    List TypeEntry → Except ModelError (List MethodId × List FieldId)
  | [] => .ok (methods, fields)
  | t :: rest => do
    let methods ← checkListed (fun id => p.methods[id.index]?.map fun m => (m.owner, m.name))
      (.unknownMethod ·.index) ⟨index⟩ t.name methods t.methods
    let fields ← checkListed (fun id => p.fields[id.index]?.map fun f => (f.owner, f.name))
      (.unknownField ·.index) ⟨index⟩ t.name fields t.fields
    checkTypes p (index + 1) methods fields rest

/-- Check that the parts of a program agree. -/
def validate (p : Program) : Except ModelError Unit := do
  p.checkNames
  let (methods, fields) ← checkTypes p 0 [] [] p.types
  match p.methodIds.find? fun id => !methods.contains id with
  | some id => .error (.misplacedMember (p.method id).name)
  | none =>
    match p.fieldIds.find? fun id => !fields.contains id with
    | some id => .error (.misplacedMember (p.field id).name)
    | none => .ok ()

end Namesake.Program
