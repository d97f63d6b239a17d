import Namesake.Merge.Bridges
import Namesake.Merge.Collector
import Namesake.Merge.Enums
import Namesake.Merge.Initializers
import Namesake.Merge.NestedTypes
import Namesake.Merge.Overrides
import Namesake.Merge.Referrers
import Namesake.Merge.Registrations

/-! # Passes

A pass goes once over the two builds and the ledger. All passes but the last decide what to do from
the ledger they find and then do it; the collector looks at the ledger again before each match it
confirms.
-/

namespace Namesake

/-- The passes of a merge, in their usual order. -/
inductive Pass where
  | literals
  | bridges
  | enums
  | initializers
  | references
  | discreteFields
  | overrides
  | discreteMethods
  | nestedTypes
  | confirmedTypes
  | registrations
  | confirmedMethods
  | confirmedFields
  | collector
deriving DecidableEq, Repr

namespace Pass

/-- All passes, in their usual order. -/
def all : List Pass :=
  [literals, bridges, enums, initializers, references, discreteFields, overrides, discreteMethods,
    nestedTypes, confirmedTypes, registrations, confirmedMethods, confirmedFields, collector]

/-- How a pass is called in reports. -/
def name : Pass → String
  | literals => "string_constants"
  | bridges => "synthetic_overloads"
  | enums => "enums"
  | initializers => "initializers"
  | references => "references"
  | discreteFields => "discrete_fields"
  | overrides => "method_groups"
  | discreteMethods => "discrete_methods"
  | nestedTypes => "inner_classes"
  | confirmedTypes => "matched_types"
  | registrations => "custom_mergers"
  | confirmedMethods => "matched_methods"
  | confirmedFields => "matched_fields"
  | collector => "vote_collector"

/-- The pass of a name. -/
def named? (name : String) : Option Pass := all.find? fun pass => pass.name = name

theorem mem_all (pass : Pass) : pass ∈ all := by cases pass <;> decide

/-- What a pass does about a ledger, where that is decided beforehand. -/
def plan? (c : Context) (l : Ledger) : Pass → Option (List Action)
  | literals => some (matchLiterals c)
  | bridges => some (matchBridges c)
  | enums => some ((matchEnums c).map .vote)
  | initializers => some (linkInitializers c l)
  | references => some ((matchReferences c l).map .vote)
  | discreteFields => some ((matchDiscreteFields c l).map .vote)
  | overrides => some ((matchOverrides c l).map .vote)
  | discreteMethods => some ((matchDiscreteMethods c l).map .vote)
  | nestedTypes => some ((matchNested c l).map .vote)
  | confirmedTypes => some (mergeTypes c l)
  | registrations => some (mergeRegistrations c l)
  | confirmedMethods => some (mergeMethods c l)
  | confirmedFields => some (mergeFields c l)
  | collector => none

/-- Run a pass. -/
def run (pass : Pass) (c : Context) : Work Unit := do
  match pass.plan? c (← get).ledger with
  | some actions => Action.performAll c actions
  | none => collectVotes c

end Pass

end Namesake
