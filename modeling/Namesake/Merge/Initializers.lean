import Namesake.Merge.State

/-! # Linking static initializers

A type has one static initializer at most, so those of a confirmed pair belong together.
-/

namespace Namesake

/-- Confirm the static initializers of confirmed types. -/
def linkInitializers (c : Context) (l : Ledger) : List Action :=
  l.types.pairs.filterMap fun (o, n) => do
    let old ← c.old.program.staticInitializer? o
    let new ← c.new.program.staticInitializer? n
    return .confirmMethod (.real old) new

end Namesake
