import Namesake.Merge.State

/-! # Matching enums by their constants

The names of enum constants survive, and new ones may be added: an old enum may become any new one
that has all its constants, as long as both or neither are nested.
-/

namespace Namesake

namespace Program

/-- The named enums that have constants. -/
def namedEnums (p : Program) : List TypeId :=
  p.typeIds.filter fun t =>
    let e := p.type t
    e.isEnum && !e.isAnonymous && !e.enumConstants.isEmpty

end Program

/-- Whether an enum has all the constants of an older one, and no fewer of them. -/
def extendsEnum (old new : TypeEntry) : Bool :=
  old.enumConstants.length ≤ new.enumConstants.length &&
    old.enumConstants.all new.enumConstants.contains

/-- Vote for enums that extend older ones. -/
def matchEnums (c : Context) : List Ballot :=
  c.new.program.namedEnums.flatMap fun n =>
    let new := c.new.program.type n
    c.old.program.namedEnums.filterMap fun o =>
      let old := c.old.program.type o
      if old.isInner = new.isInner && extendsEnum old new then some (.type o n) else none

end Namesake
