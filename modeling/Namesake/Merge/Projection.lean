import Namesake.Merge.Context

/-! # Carrying the names over

A confirmed thing of the new build takes the plain name of its old counterpart; what it has been
confirmed for may also be a placeholder, which is a name by itself. Names that are there already
stay. Anonymous types that are left without a name are numbered after the type around them.

The number of an anonymous type fits 32 bits (`TypeName.anonymousIndex?`), and the search for a free
one goes up from it without a bound. An engine that counts in 32 bits finds the same number as long
as the count does not overflow; what it does then is left out.
-/

namespace Namesake

/-- The plain names of the confirmed types. -/
def carriedTypes (c : Context) (l : Ledger) : List (String × String) :=
  l.types.confirmed.values.filterMap fun e => do
    let new ← e.target
    let plain ← match e.old with
      | .real old => c.names.mapType? (c.old.program.type old).name
      | .synthetic s => some s.name
    return ((c.new.program.type new).name, plain)

/-- The plain names of the confirmed fields, with the new owners and names they are for. A
placeholder is used only if the new owner is named. -/
def carriedFields (c : Context) (l : Ledger) (isNamed : String → Bool) :
    List (String × String × String) :=
  let (old, new) := (c.old.program, c.new.program)
  l.fields.confirmed.values.filterMap fun e => do
    let f ← e.target
    let owner := new.fieldOwnerName f
    let plain ← match e.old with
      | .real o => c.names.mapField? (old.fieldOwnerName o) (old.field o).name
      | .synthetic s => if isNamed owner then some s.name else none
    return (owner, (new.field f).name, plain)

/-- The plain names of the confirmed methods, with the new owners, names and descriptors they are
for. A placeholder is used only if the new owner is named. -/
def carriedMethods (c : Context) (l : Ledger) (isNamed : String → Bool) :
    List (String × String × String × String) :=
  let (old, new) := (c.old.program, c.new.program)
  l.methods.confirmed.values.filterMap fun e => do
    let m ← e.target
    let owner := new.methodOwnerName m
    let plain ← match e.old with
      | .real o =>
        c.names.mapMethod? (old.methodOwnerName o) (old.method o).name (old.method o).descriptor
      | .synthetic s => if isNamed owner then some s.name else none
    return (owner, (new.method m).name, (new.method m).descriptor, plain)

/-! ## Anonymous types -/

/-- The name of the anonymous type of a number inside a type. -/
def numberedName (outer : String) (number : Nat) : String := outer ++ "$" ++ toString number

/-- The first numbered name from a number on that is not taken. A taken name is struck off before
the next one is tried, as it cannot be met again. -/
def freeNumberedName (outer : String) (taken : List String) (number : Nat) : String :=
  let name := numberedName outer number
  if _h : name ∈ taken then freeNumberedName outer (taken.erase name) (number + 1) else name
termination_by taken.length
decreasing_by
  rw [List.length_erase_of_mem _h]
  exact Nat.sub_lt (List.length_pos_of_mem _h) (by decide)

/-- The names of the anonymous types of a program, in order, so that every type comes after the one
around it. -/
def Program.anonymousNames (p : Program) : List String :=
  ((p.types.map (·.name)).filter TypeName.isAnonymous).mergeSort fun a b => a ≤ b

/-- Name an anonymous type after the type around it. Nothing is done if it has a name, or if the
type around it has none. -/
def nameAnonymous (names : MappingSet) (name : String) : MappingSet :=
  let found := do
    guard (names.mapType? name).isNone
    let outer ← names.mapType? (← TypeName.outer? name)
    return freeNumberedName outer names.inverse.keys (← TypeName.anonymousIndex? name)
  match found with
  | some plain => names.addType name plain
  | none => names

/-! ## The names of the new build -/

/-- Add what the confirmed matches tell to the names of the new build. -/
def project (c : Context) (l : Ledger) (names : MappingSet) : MappingSet :=
  let named := (carriedTypes c l).foldl (fun s (name, plain) => s.addType name plain) names
  let named := if c.settings.nameAnonymousClasses
    then c.new.program.anonymousNames.foldl nameAnonymous named
    else named
  let isNamed (name : String) := (named.mapType? name).isSome
  let named := (carriedFields c l isNamed).foldl
    (fun s (owner, name, plain) => s.addField owner name plain) named
  (carriedMethods c l isNamed).foldl
    (fun s (owner, name, descriptor, plain) => s.addMethod owner name descriptor plain) named

end Namesake
