import Namesake.MappingSet.Stored
import Namesake.Merge.Session
import Namesake.Program.Json
import Namesake.Program.Outline
import Namesake.Proofs.Entry
import Namesake.Proofs.Partition
import Namesake.Proofs.PartitionRuns
import Namesake.Proofs.PartitionRules
import Namesake.Proofs.ValidPrograms
import Namesake.Proofs.Actions
import Namesake.Proofs.PartitionInvariants
import Namesake.Proofs.LedgerRules
import Namesake.Proofs.Trails
import Namesake.Proofs.ComparisonBallots
import Namesake.Proofs.Exploring
import Namesake.Proofs.OverrideSearch
import Namesake.Proofs.OverridePartition
import Namesake.Proofs.BuiltIndexes
import Namesake.Proofs.PassWarrants
import Namesake.Proofs.Collecting
import Namesake.Proofs.PassTrails
import Namesake.Proofs.SessionCalls
import Namesake.Proofs.OwnerRule
import Namesake.Proofs.Handing
import Namesake.Proofs.Runs
import Namesake.Proofs.Cycles
import Namesake.Proofs.Convergence
import Namesake.Proofs.Handover
import Namesake.Proofs.Undecided
import Namesake.Proofs.Chronicle
import Namesake.Proofs.Ranges
import Namesake.Proofs.RangeSafety
import Namesake.Proofs.MappingSets
import Namesake.Proofs.MappingEdits
import Namesake.Proofs.StoredNames
import Namesake.Proofs.UniqueNames
import Namesake.Proofs.Projection
import Namesake.Proofs.Seeding
import Namesake.Proofs.CarriedNames
import Namesake.Proofs.Descriptors
import Namesake.Proofs.Renaming
import Namesake.Proofs.Mentions
import Namesake.Proofs.RenamedPrograms
import Namesake.Proofs.Tallies
import Namesake.Proofs.TallyIndependence
import Namesake.Proofs.OpenLedgers
import Namesake.Proofs.RenamedCopies
import Namesake.Proofs.OverrideClasses
import Namesake.Proofs.Confirming
import Namesake.Proofs.Ranking
import Namesake.Proofs.Reachable
import Namesake.Proofs.IdleCollector
import Namesake.Proofs.WellFormed
import Namesake.Proofs.CollectedVotes
import Namesake.Proofs.ProgramBuilding
import Namesake.Proofs.Accounts
import Namesake.Proofs.CycleLimits
import Namesake.Proofs.Pairings
import Namesake.Proofs.Constructors
import Namesake.Proofs.ExcludedPackages
import Namesake.Proofs.Figures
import Namesake.Proofs.VoteOrder
import Namesake.Proofs.Refusals
import Namesake.Proofs.StoredPrograms
import Namesake.Proofs.GreedyCollector
import Namesake.Proofs.CollectedMembers
import Namesake.Proofs.Moves
import Namesake.Proofs.WithheldOutput
import Namesake.Proofs.AnonymousNames
import Namesake.Proofs.GenericOverrides
import Namesake.Proofs.MappedDescriptors
import Namesake.Proofs.DescriptorParts
import Namesake.Proofs.ProlongedBlocks
import Namesake.Proofs.MirroredComparisons
import Namesake.Proofs.PropagatedOverrides
import Namesake.Proofs.MemberResolution
import Namesake.Proofs.WrittenFields
import Namesake.Proofs.LiteralPairs
import Namesake.Proofs.CounterpartKeys
import Namesake.Proofs.RegisteredKeys
import Namesake.Proofs.LiteralOwners
import Namesake.Proofs.ProposedPairs
