import Pawrly.Text
import Pawrly.Semantic.Types
import Pawrly.Sql.Syntax
import Pawrly.Semantic.Catalog
import Pawrly.Lib.Fallible
import Pawrly.Lib.RootedTree
import Pawrly.Semantic.Reach
import Pawrly.Semantic.JoinTree
import Pawrly.Lib.Routes
import Pawrly.Semantic.Search
import Pawrly.Semantic.Compile
import Pawrly.Semantic.Metric
import Pawrly.Semantic.Core
import Pawrly.Semantic.Scans
import Pawrly.Semantic.RowSecurity
import Pawrly.Semantic.FanOut
import Pawrly.Semantic.JoinPaths
import Pawrly.Sql.Scope
import Pawrly.Semantic.Scoping
import Pawrly.Semantic.TimeAxis
import Pawrly.Lib.OuterJoin
import Pawrly.Lib.PartialAggregate
import Pawrly.Sql.Relation
import Pawrly.Sql.Aggregate
import Pawrly.Sql.Window
import Pawrly.Semantic.MetricCaps
import Pawrly.Semantic.Rollup
import Pawrly.Semantic.RollupPlan
import Pawrly.Semantic.RollupReads
import Pawrly.Semantic.RollupRelations
import Pawrly.Semantic.RollupEquivalence
import Pawrly.Semantic.Locality
import Pawrly.Lib.NormalForm
import Pawrly.Sql.Token
import Pawrly.Sql.Condition
import Pawrly.Semantic.Conjunction
import Pawrly.Lib.CycleSearch
import Pawrly.Config.Validator
import Pawrly.Config.Accepted
import Pawrly.Config.MetricExpansion
import Pawrly.Config.Workspace
import Pawrly.Lib.EffectfulLoop
import Pawrly.Config.Preaggregations
import Pawrly.Config.RollupAcceptance
import Pawrly.Semantic.ValueConfinement
import Pawrly.Semantic.SpineCompleteness
import Pawrly.Lib.LabelledRun
import Pawrly.Cache.Manifest
import Pawrly.Cache.Operations
import Pawrly.Cache.ManifestSafety
import Pawrly.Cache.Interleaving
import Pawrly.Cache.InterleavingSafety
import Pawrly.Cache.Namespace
import Pawrly.Cache.NamespaceFreshness
import Pawrly.Cache.Provider
import Pawrly.Cache.Transparency
import Pawrly.Lib.OrderedMap
import Pawrly.Http.Filter
import Pawrly.Http.Raw
import Pawrly.Http.Spec
import Pawrly.Http.Typed
import Pawrly.Http.TypedPushdown
import Pawrly.Http.TypedExactness
import Pawrly.Lib.InnerJoin
import Pawrly.Http.DependentJoin
import Pawrly.Http.DependentJoinRows
import Pawrly.Http.Json
import Pawrly.Http.Paginate
import Pawrly.Http.Fetch
import Pawrly.Lib.Windows
import Pawrly.Http.WindowPaging
import Pawrly.Http.Progress
import Pawrly.Engine.Stream
import Pawrly.Engine.Lifecycle
import Pawrly.Lib.IpAddress
import Pawrly.Http.Guard
import Pawrly.Http.TargetPolicy
import Pawrly.Lib.Logged
import Pawrly.Http.Credentials
import Pawrly.Lib.Templates
import Pawrly.Engine.Params
import Pawrly.Engine.Substitution
import Pawrly.Engine.ActivityLog
import Pawrly.Engine.ActivityConservation
import Pawrly.Cache.RollupCache
import Pawrly.Engine.Registry
import Pawrly.Engine.RegistryEffects
import Pawrly.Engine.LocalEngine
import Pawrly.Engine.LocalEngineEffects
import Pawrly.Engine.ReloadEquivalence
import Pawrly.Engine.CatalogAtomicity
import Pawrly.Semantic.DeclaredEdges
import Pawrly.Semantic.JoinPlanning
import Pawrly.Mcp.CancelRegistry
import Pawrly.Lib.LikePattern
import Pawrly.Semantic.LikeFilters
import Pawrly.Secrets.EncryptedFile
import Pawrly.Secrets.CallOutcomes
import Pawrly.Secrets.Durability
import Pawrly.Secrets.VariableStore
import Pawrly.Secrets.StoreConsistency
import Pawrly.Secrets.OAuthStore
import Pawrly.Secrets.RefreshSafety
import Pawrly.Engine.Redact
import Pawrly.Engine.RedactNoninterference
import Pawrly.Engine.FunctionCall
import Pawrly.Engine.CallText
import Pawrly.Engine.CallRoundTrip
import Pawrly.Lib.OperatorGrammar
import Pawrly.Sql.Spelling
import Pawrly.Semantic.MetricTree
import Pawrly.Semantic.MetricText
import Pawrly.Semantic.MetricRendering
import Pawrly.Semantic.MetricLeaves
import Pawrly.Semantic.FilteredAggregate
import Pawrly.Semantic.MetricMeaning
import Pawrly.Http.RowCaps
import Pawrly.Lib.BoundedClock
import Pawrly.Http.Deadlines
import Pawrly.Lib.PathLens
import Pawrly.Http.JsonPaths
import Pawrly.Lib.RecordBatch
import Pawrly.Http.Columns
import Pawrly.Http.OpenApi
import Pawrly.Http.OpenApiNames
import Pawrly.Http.PathEvaluators
import Pawrly.Http.ScanPlans
import Pawrly.Mcp.ToolTable
import Pawrly.Mcp.ToolFetch
import Pawrly.Engine.Projections
import Pawrly.Http.LinkHeader
import Pawrly.Http.JsonText
import Pawrly.Http.JsonTokens
import Pawrly.Http.BodyTemplates
import Pawrly.Mcp.Synthesis
import Pawrly.Mcp.Records
import Pawrly.Lib.Separated
import Pawrly.Cache.RollupNames
import Pawrly.Config.Functions
import Pawrly.Engine.FunctionRegistry
import Pawrly.Engine.FunctionRewrite
import Pawrly.Mcp.NamedCalls
import Pawrly.Sql.Statements
import Pawrly.Mcp.RowBound
import Pawrly.Mcp.Truncation
import Pawrly.Engine.ErrorWire
import Pawrly.Semantic.QueryWire
import Pawrly.Http.JsonWalk
import Pawrly.Config.Variables
import Pawrly.Config.VariableTypes
import Pawrly.Config.VariableRefs
import Pawrly.Config.Overlay
import Pawrly.Semantic.DerivedTokens
import Pawrly.Cache.NamespacePaths
import Pawrly.Engine.Materialize
import Pawrly.Lib.Csv
import Pawrly.Server.RestFormats
import Pawrly.Lib.GuardedWalk
import Pawrly.Config.Includes
import Pawrly.Config.Loader
import Pawrly.Http.SourceAuth
import Pawrly.Config.ResolvedData
import Pawrly.Engine.DuckDbScan
import Pawrly.Engine.InlineDirective
import Pawrly.Engine.DuckDbSecrets
import Pawrly.Config.MetricCycles
import Pawrly.Http.OpenApiGlob
import Pawrly.Lib.Calendar
import Pawrly.Semantic.GrainTruncation
import Pawrly.Lib.Tasks
import Pawrly.Engine.DuckDbPool
import Pawrly.Lib.Utf8
import Pawrly.Mcp.Stdio
import Pawrly.Client.NdjsonRows
import Pawrly.Client.Remote
import Pawrly.Lib.FormUrlencoded
import Pawrly.Secrets.DeviceFlow
import Pawrly.Secrets.CallbackFlow
