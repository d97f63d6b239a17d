import Namesake.Json.Printer
import Namesake.Json.Reader

/-! # Settings

What a run may be told: which packages of the old build to leave out, how much the vote collector
commits at a time, how many cycles to run, and whether anonymous classes get names.
-/

namespace Namesake

/-- How many pending matches the vote collector commits in one cycle. -/
structure CollectorSettings where
  minTypes : Nat
  minMethods : Nat
  minFields : Nat
  /-- One part in so many of the pending matches. -/
  fractionDivisor : Nat
deriving DecidableEq, Repr

namespace CollectorSettings

def default : CollectorSettings := ⟨20, 50, 20, 10⟩

instance : Inhabited CollectorSettings := ⟨default⟩

/-- The number of matches to commit out of the pending ones: a fraction of them, but at least the
minimum as far as there are so many. A divisor of zero counts as one. -/
def quota (s : CollectorSettings) (minimum pending : Nat) : Nat :=
  min pending (max minimum (pending / max s.fractionDivisor 1))

def toJson (s : CollectorSettings) : Json :=
  .obj [("min_types", .ofNat s.minTypes), ("min_methods", .ofNat s.minMethods),
    ("min_fields", .ofNat s.minFields), ("fraction_divisor", .ofNat s.fractionDivisor)]

/-- The names of the settings, in the order they are written. -/
def names : List String := ["min_types", "min_methods", "min_fields", "fraction_divisor"]

/-- Read collector settings; whatever is missing has its default. -/
def ofJson? (j : Json) : Option CollectorSettings := do
  let r ← j.record? names 0
  let minTypes ← r.withDefault "min_types" default.minTypes (Json.nat? 64)
  let minMethods ← r.withDefault "min_methods" default.minMethods (Json.nat? 64)
  let minFields ← r.withDefault "min_fields" default.minFields (Json.nat? 64)
  let fractionDivisor ← r.withDefault "fraction_divisor" default.fractionDivisor (Json.nat? 64)
  return ⟨minTypes, minMethods, minFields, fractionDivisor⟩

end CollectorSettings

/-- The settings of a run. -/
structure MergeSettings where
  /-- Beginnings of plain names whose types are ignored in the old build. -/
  excludedPackages : List String
  collector : CollectorSettings
  maxCycles : Nat
  nameAnonymousClasses : Bool
deriving DecidableEq, Repr

namespace MergeSettings

def default : MergeSettings := ⟨[], .default, 10000, true⟩

instance : Inhabited MergeSettings := ⟨default⟩

def toJson (s : MergeSettings) : Json :=
  .obj [("excluded_packages", .ofList .str s.excludedPackages), ("collector", s.collector.toJson),
    ("max_cycles", .ofNat s.maxCycles), ("name_anonymous_classes", .bool s.nameAnonymousClasses)]

/-- The names of the settings, in the order they are written. -/
def names : List String :=
  ["excluded_packages", "collector", "max_cycles", "name_anonymous_classes"]

/-- Read settings; whatever is missing has its default. -/
def ofJson? (j : Json) : Option MergeSettings := do
  let r ← j.record? names 0
  let excludedPackages ← r.withDefault "excluded_packages" [] (Json.list? Json.str?)
  let collector ← r.withDefault "collector" .default CollectorSettings.ofJson?
  let maxCycles ← r.withDefault "max_cycles" default.maxCycles (Json.nat? 32)
  let nameAnonymousClasses ← r.withDefault "name_anonymous_classes" true Json.bool?
  return ⟨excludedPackages, collector, maxCycles, nameAnonymousClasses⟩

/-- Whether no setting is given twice. -/
def isUnambiguous (j : Json) : Bool :=
  j.hasDistinct names && match j.record? names 0 >>= fun r => r.part? "collector" with
    | some ⟨collector, _⟩ => collector.hasDistinct CollectorSettings.names
    | none => true

/-- Read a settings file. A setting that is given twice is refused. -/
def parse? (text : String) : Option MergeSettings := do
  let j ← Json.parse? text
  guard (isUnambiguous j)
  ofJson? j

/-- The text of a settings file. -/
def text (s : MergeSettings) : String := s.toJson.pretty

end MergeSettings

end Namesake
