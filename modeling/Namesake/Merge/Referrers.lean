import Namesake.Merge.Elimination

/-! # Matching by references

Whatever refers to two things that belong together may belong together itself. Where all referrers
on each side are members of a single type, these types are voted for; referrers in confirmed types
are paired by elimination.
-/

namespace Namesake

/-- The methods by the types that own them. -/
def byOwner (p : Program) (methods : List MethodId) : SortedMap TypeId (List MethodId) :=
  methods.foldl (fun m id =>
    let owner := (p.method id).owner
    m.insert owner (m.getD owner [] ++ [id])) ∅

/-- Compare the referrers of two things that belong together. -/
def compareReferrers (c : Context) (l : Ledger) (olds news : List MethodId) : List Ballot :=
  let old := byOwner c.old.program olds
  let new := byOwner c.new.program news
  let owners := match old.keys, new.keys with
    | [o], [n] => [.type o n]
    | _, _ => []
  owners ++ old.toList.flatMap fun (t, methods) =>
    match l.types.target? (.real t) with
    | none => []
    | some n =>
      match new.get? n with
      | none => []
      | some methods' => eliminateMethods c l methods methods'

/-- Vote for what refers to confirmed things and to the same things outside the programs. -/
def matchReferences (c : Context) (l : Ledger) : List Ballot :=
  let (old, new) := (c.old.references, c.new.references)
  let compare (o n : Reference) := compareReferrers c l (old.referrers o) (new.referrers n)
  let external := old.externals.flatMap fun (r, _) => compare r r
  let internal := l.types.pairs.flatMap fun (o, n) =>
    let created := compare (.create o) (.create n) ++ compare (.createArray o) (.createArray n)
    let fields := (c.old.program.type o).fields.flatMap fun f =>
      match l.fields.target? (.real f) with
      | none => []
      | some g => compare (.read f) (.read g) ++ compare (.write f) (.write g)
    let methods := (c.old.program.type o).methods.flatMap fun m =>
      match l.methods.target? (.real m) with
      | none => []
      | some m' =>
        let site := c.old.program.soleAnonymousSite? m
        let site' := c.new.program.soleAnonymousSite? m'
        let sites := match site, site' with
          | some a, some b => [.type a b]
          | _, _ => []
        sites ++ compare (.invoke m) (.invoke m')
    created ++ fields ++ methods
  external ++ internal

end Namesake
