import Borsa.Lib.Path
import Borsa.Lib.Cyclic
import Borsa.Lib.Keyed
import Borsa.Lib.SortKey
import Borsa.Lib.Firsts
import Borsa.Lib.Picks
import Borsa.Lib.Best
import Borsa.Lib.Mode
import Borsa.Lib.Runs
import Borsa.Lib.OrdMap
import Borsa.Lib.Clock
import Borsa.Lib.Grid
import Borsa.Lib.Fallible
import Borsa.Lib.Table
import Borsa.Lib.Meter
import Borsa.Lib.Register
import Borsa.Lib.Watermark
import Borsa.Lib.Json
import Borsa.Lib.Serde
import Borsa.Lib.Simulation
import Borsa.Lib.Slots
import Borsa.Types
import Borsa.Error
import Borsa.ErrorAggregates
import Borsa.RoutingPolicy
import Borsa.Core
import Borsa.Ordering
import Borsa.PolicySerde
import Borsa.PolicyBuilder
import Borsa.Fetch
import Borsa.Search
import Borsa.Streaming.Supervisor
import Borsa.Streaming.Scan
import Borsa.Streaming.Transition
import Borsa.Streaming.Terminal
import Borsa.Streaming.ScanBounds
import Borsa.Streaming.Controller
import Borsa.Streaming.Turn
import Borsa.Streaming.Reach
import Borsa.Streaming.Failover
import Borsa.Streaming.Failback
import Borsa.Streaming.Startup
import Borsa.Streaming.StartErrors
import Borsa.Streaming.Overlap
import Borsa.Streaming.Tasks
import Borsa.Streaming.Backoff
import Borsa.Streaming.Session
import Borsa.Streaming.Planner
import Borsa.Streaming.Plan
import Borsa.Streaming.PlanPolicy
import Borsa.Streaming.ChainOrder
import Borsa.Streaming.Filter
import Borsa.Streaming.Assigned
import Borsa.Streaming.SessionTask
import Borsa.Streaming.ControllerTask
import Borsa.Streaming.ControllerTurn
import Borsa.Streaming.ControllerRefines
import Borsa.Streaming.Stream
import Borsa.Streaming.ControllerStop
import Borsa.Streaming.ControllerStreams
import Borsa.Streaming.ControllerReport
import Borsa.Streaming.StreamStop
import Borsa.Streaming.StreamOpen
import Borsa.Streaming.StreamPolicy
import Borsa.Timeseries.Candle
import Borsa.Timeseries.Infer
import Borsa.Timeseries.Subdaily
import Borsa.Timeseries.Step
import Borsa.Timeseries.Merge
import Borsa.Timeseries.MergePriority
import Borsa.Timeseries.MergeIncremental
import Borsa.Timeseries.Dedup
import Borsa.Timeseries.Resample
import Borsa.Timeseries.Grouping
import Borsa.Timeseries.Cadence
import Borsa.Timeseries.ResampleSpec
import Borsa.Timeseries.Staged
import Borsa.Timeseries.CurrencyChecks
import Borsa.Timeseries.LocalTime
import Borsa.Timeseries.LocalMinutes
import Borsa.Timeseries.ResampleTotal
import Borsa.Timeseries.LocalDays
import Borsa.Timeseries.UtcPaths
import Borsa.History.Attribution
import Borsa.History.Request
import Borsa.History.IntervalPlan
import Borsa.History.Pipeline
import Borsa.History.Blame
import Borsa.History.Router
import Borsa.History.Fallback
import Borsa.History.WellFormed
import Borsa.History.Classification
import Borsa.Middleware.Call
import Borsa.Middleware.Quota
import Borsa.Middleware.QuotaBudget
import Borsa.Middleware.QuotaHint
import Borsa.Middleware.QuotaPanic
import Borsa.Middleware.Blacklist
import Borsa.Middleware.BlacklistReports
import Borsa.Middleware.Cache
import Borsa.Middleware.CacheTransparency
import Borsa.Middleware.CacheRace
import Borsa.Middleware.Stack
import Borsa.Middleware.RateLimit
import Borsa.Middleware.StackAccounts
import Borsa.Middleware.Builder
import Borsa.Middleware.BuilderNormal
import Borsa.Middleware.StackRoundTrip
import Borsa.Middleware.Traffic
import Borsa.Middleware.TrafficLayers
import Borsa.Router.Requests
import Borsa.Router.Answers
import Borsa.Router.Ownership
import Borsa.Router.Progress
import Borsa.Router.Quotes
import Borsa.Middleware.Internal
