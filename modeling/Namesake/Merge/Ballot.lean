import Namesake.Merge.Context

/-! # Ballots

A ballot says that a new thing may be the counterpart of an old one. A member ballot is admissible
only if both members are static or neither is, and, once the old owner has its counterpart, if the
new member belongs to that; ballots about compiler-made bridges are exempt from both rules.

Whether a ballot is accepted depends on what is confirmed or fixed, never on the votes so far, so
casting ballots does not change the acceptance of any.
-/

namespace Namesake

/-- A vote that may be cast. -/
inductive Ballot where
  | type (old new : TypeId)
  | method (old new : MethodId)
  | field (old new : FieldId)
deriving DecidableEq, Repr

namespace Ballot

/-- The new owner a member has to have, by its hint or through the confirmed counterpart of its old
owner. -/
def requiredOwner? {ι : Type} [KeyOrder ι] (l : Ledger) (members : Partition ι) (old : ι)
    (oldOwner : TypeId) : Option TypeId :=
  ((members.get? (.real old)) >>= (·.ownerHint)).or (l.types.target? (.real oldOwner))

/-- Whether a ballot may be cast at all. -/
def isAdmissible (c : Context) (l : Ledger) : Ballot → Bool
  | type _ _ => true
  | method old new =>
    let o := c.old.program.method old
    let n := c.new.program.method new
    o.isSynthetic || n.isSynthetic ||
      (o.isStatic == n.isStatic &&
        ((requiredOwner? l l.methods old o.owner).all fun owner => owner = n.owner))
  | field old new =>
    let o := c.old.program.field old
    let n := c.new.program.field new
    o.isStatic == n.isStatic &&
      ((requiredOwner? l l.fields old o.owner).all fun owner => owner = n.owner)

/-- Whether a ballot counts, or agrees with what is confirmed. -/
def accepted (c : Context) (l : Ledger) (b : Ballot) : Bool :=
  b.isAdmissible c l &&
    match b with
    | type old new => l.types.accepts (.real old) new
    | method old new => l.methods.accepts (.real old) new
    | field old new => l.fields.accepts (.real old) new

/-- Cast a ballot. -/
def cast (c : Context) (l : Ledger) (b : Ballot) : Ledger :=
  if b.isAdmissible c l then
    match b with
    | type old new => { l with types := l.types.vote (.real old) new }
    | method old new => { l with methods := l.methods.vote (.real old) new }
    | field old new => { l with fields := l.fields.vote (.real old) new }
  else l

end Ballot

end Namesake
