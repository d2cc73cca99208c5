import PhloTransform.Core.Assertions
import PhloTransform.Core.Compiled
import PhloTransform.Core.CteBinding
import PhloTransform.Core.CteScoping
import PhloTransform.Core.Discovery
import PhloTransform.Core.ExcludeExpansion
import PhloTransform.Core.Graph
import PhloTransform.Core.Identity
import PhloTransform.Core.Inference
import PhloTransform.Core.InferenceMeaning
import PhloTransform.Core.Lineage
import PhloTransform.Core.LineageCompleteness
import PhloTransform.Core.LineageDiff
import PhloTransform.Core.LineageImpact
import PhloTransform.Core.LineageInputs
import PhloTransform.Core.ModelVersions
import PhloTransform.Core.Orphans
import PhloTransform.Core.Precedence
import PhloTransform.Core.Relation
import PhloTransform.Core.Resolve
import PhloTransform.Core.Schema
import PhloTransform.Core.SeedDatasets
import PhloTransform.Core.Selection
import PhloTransform.Core.SourceReference
import PhloTransform.Core.SourceVersions
import PhloTransform.Core.SqlNames
import PhloTransform.Core.Targets
import PhloTransform.Core.Trimming
import PhloTransform.Core.TypeRoundTrip
import PhloTransform.Core.TypeText
import PhloTransform.Core.Version
import PhloTransform.Core.VersionEncoding
import PhloTransform.Core.VersionTexts
import PhloTransform.Daemon.AtMostOnce
import PhloTransform.Daemon.Cancellation
import PhloTransform.Daemon.Executors
import PhloTransform.Daemon.Fingerprint
import PhloTransform.Daemon.Gate
import PhloTransform.Daemon.History
import PhloTransform.Daemon.Journaling
import PhloTransform.Daemon.Operations
import PhloTransform.Daemon.Snapshots
import PhloTransform.Dbt.CallLiterals
import PhloTransform.Dbt.CallShapes
import PhloTransform.Dbt.CallSoundness
import PhloTransform.Dbt.EmittedNames
import PhloTransform.Dbt.GenericTestAgreement
import PhloTransform.Dbt.GenericTestProbes
import PhloTransform.Dbt.GenericTests
import PhloTransform.Dbt.HeaderRoundTrip
import PhloTransform.Dbt.Incremental
import PhloTransform.Dbt.IncrementalRuns
import PhloTransform.Dbt.JinjaMarkers
import PhloTransform.Dbt.JinjaScan
import PhloTransform.Dbt.JinjaSplitting
import PhloTransform.Dbt.LooseCalls
import PhloTransform.Dbt.LostResources
import PhloTransform.Dbt.ModelFiles
import PhloTransform.Dbt.PropertyTests
import PhloTransform.Dbt.PyLit
import PhloTransform.Dbt.PyLitScalars
import PhloTransform.Dbt.PyLitStrings
import PhloTransform.Dbt.PyLitValues
import PhloTransform.Dbt.Translation
import PhloTransform.Dbt.WatermarkBodies
import PhloTransform.Engine.Appends
import PhloTransform.Engine.AttemptHistory
import PhloTransform.Engine.Attempts
import PhloTransform.Engine.Audit
import PhloTransform.Engine.AuditEvidence
import PhloTransform.Engine.AuditExactness
import PhloTransform.Engine.Bindings
import PhloTransform.Engine.BranchDiff
import PhloTransform.Engine.Changed
import PhloTransform.Engine.Clock
import PhloTransform.Engine.ColumnDiff
import PhloTransform.Engine.CompletionPaths
import PhloTransform.Engine.ConcurrentWriters
import PhloTransform.Engine.Confluence
import PhloTransform.Engine.Contracts
import PhloTransform.Engine.DependencySafety
import PhloTransform.Engine.DiffPolicies
import PhloTransform.Engine.Environment
import PhloTransform.Engine.Evaluation
import PhloTransform.Engine.Evidence
import PhloTransform.Engine.EvidenceChoice
import PhloTransform.Engine.EvidenceListing
import PhloTransform.Engine.Execution
import PhloTransform.Engine.ExecutionRun
import PhloTransform.Engine.FailedWrites
import PhloTransform.Engine.FrontEnds
import PhloTransform.Engine.Gates
import PhloTransform.Engine.IncrementalWrites
import PhloTransform.Engine.Isolation
import PhloTransform.Engine.KeyedDiff
import PhloTransform.Engine.LatestRun
import PhloTransform.Engine.LineageAudit
import PhloTransform.Engine.LineageComparison
import PhloTransform.Engine.LoopInvariant
import PhloTransform.Engine.LoopProgress
import PhloTransform.Engine.LoopRun
import PhloTransform.Engine.OrderedUpserts
import PhloTransform.Engine.Outputs
import PhloTransform.Engine.PassedRuns
import PhloTransform.Engine.PhysicalOps
import PhloTransform.Engine.Plan
import PhloTransform.Engine.PlanContent
import PhloTransform.Engine.PlanSelection
import PhloTransform.Engine.Probes
import PhloTransform.Engine.Promotion
import PhloTransform.Engine.Provisioning
import PhloTransform.Engine.RepeatedAudits
import PhloTransform.Engine.RetryBudget
import PhloTransform.Engine.ReuseEvidence
import PhloTransform.Engine.RunBinding
import PhloTransform.Engine.RunWrites
import PhloTransform.Engine.Runner
import PhloTransform.Engine.ScheduleIndependence
import PhloTransform.Engine.Scheduler
import PhloTransform.Engine.SchedulerInvariant
import PhloTransform.Engine.SchemaRebuilds
import PhloTransform.Engine.SeedHashes
import PhloTransform.Engine.SeedIdentity
import PhloTransform.Engine.SeedLiterals
import PhloTransform.Engine.SeedLoads
import PhloTransform.Engine.Shutdown
import PhloTransform.Engine.SourceObservations
import PhloTransform.Engine.SourceStates
import PhloTransform.Engine.State
import PhloTransform.Engine.StateBackends
import PhloTransform.Engine.Status
import PhloTransform.Engine.Watermark
import PhloTransform.Engine.WatermarkScope
import PhloTransform.Engine.Windows
import PhloTransform.Engine.Workspace
import PhloTransform.Library.Bags
import PhloTransform.Library.Contest
import PhloTransform.Library.CycleSearch
import PhloTransform.Library.DebugText
import PhloTransform.Library.Delimited
import PhloTransform.Library.Fields
import PhloTransform.Library.FirstMark
import PhloTransform.Library.FoldedFields
import PhloTransform.Library.Gathering
import PhloTransform.Library.JinjaCalls
import PhloTransform.Library.JinjaGrammar
import PhloTransform.Library.JinjaLexing
import PhloTransform.Library.JinjaText
import PhloTransform.Library.JoinedNames
import PhloTransform.Library.Joins
import PhloTransform.Library.JsonText
import PhloTransform.Library.LeastOrder
import PhloTransform.Library.LineJournal
import PhloTransform.Library.Lines
import PhloTransform.Library.NestedText
import PhloTransform.Library.Numerals
import PhloTransform.Library.OrderedGrowth
import PhloTransform.Library.Program
import PhloTransform.Library.Propagation
import PhloTransform.Library.Queries
import PhloTransform.Library.RaisedFlag
import PhloTransform.Library.Renames
import PhloTransform.Library.Replacement
import PhloTransform.Library.SeparatedText
import PhloTransform.Library.Slots
import PhloTransform.Library.SqlTable
import PhloTransform.Library.StableSort
import PhloTransform.Library.StampedHistory
import PhloTransform.Library.StatementRuns
import PhloTransform.Library.StepSystem
import PhloTransform.Library.Table
import PhloTransform.Library.TextLines
import PhloTransform.Library.Topological
import PhloTransform.Library.Utf8
import PhloTransform.Library.Worklist
import PhloTransform.Library.WriteLog
import PhloTransform.Nessie.Client
import PhloTransform.OpenLineage.Export
import PhloTransform.OpenLineage.Faithfulness
import PhloTransform.Sql.DirectiveAccount
import PhloTransform.Sql.DirectiveRuns
import PhloTransform.Sql.Directives
import PhloTransform.Sql.HeaderLines
import PhloTransform.Sql.Names
import PhloTransform.Sql.Relations
