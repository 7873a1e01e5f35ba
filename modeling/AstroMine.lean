import AstroMine.Allocate.Anytime
import AstroMine.Allocate.Bounds
import AstroMine.Allocate.Comms
import AstroMine.Allocate.Compile
import AstroMine.Allocate.Constrained
import AstroMine.Allocate.Constraints
import AstroMine.Allocate.CpPoint
import AstroMine.Allocate.CpSat
import AstroMine.Allocate.Decode
import AstroMine.Allocate.Iis
import AstroMine.Allocate.Incumbent
import AstroMine.Allocate.Lowering
import AstroMine.Allocate.Meaning
import AstroMine.Allocate.Model
import AstroMine.Allocate.Names
import AstroMine.Allocate.OnGrid
import AstroMine.Allocate.Planner
import AstroMine.Allocate.Precedence
import AstroMine.Allocate.Skeleton
import AstroMine.Allocate.Solve
import AstroMine.Allocate.SolverOrder
import AstroMine.Allocate.Stub
import AstroMine.Allocate.StubSound
import AstroMine.Allocate.Verify
import AstroMine.Allocate.WindowOrder
import AstroMine.Bench.Batch
import AstroMine.Bench.Collect
import AstroMine.Bench.Faithful
import AstroMine.Bench.Jobs
import AstroMine.Bench.Nights
import AstroMine.Bench.Scoring
import AstroMine.Bench.SubmitHub
import AstroMine.Bench.Terminal
import AstroMine.Bench.Workers
import AstroMine.Cloud.Budget
import AstroMine.Cloud.Drain
import AstroMine.Cloud.EventLog
import AstroMine.Cloud.Scratch
import AstroMine.Cloud.Status
import AstroMine.Cloud.SweepSpec
import AstroMine.Core.Messages
import AstroMine.Core.Units
import AstroMine.Guard.ActuatorSet
import AstroMine.Guard.Arbiter
import AstroMine.Guard.Backup
import AstroMine.Guard.Braking
import AstroMine.Guard.Detection
import AstroMine.Guard.DirectiveGate
import AstroMine.Guard.EffortMagnitude
import AstroMine.Guard.FailClosed
import AstroMine.Guard.Geometry
import AstroMine.Guard.GuardedMove
import AstroMine.Guard.HistoryBound
import AstroMine.Guard.HoldAnchor
import AstroMine.Guard.Memory
import AstroMine.Guard.MinimalIntervention
import AstroMine.Guard.Model
import AstroMine.Guard.MonitorSemantics
import AstroMine.Guard.Monitors
import AstroMine.Guard.PolicyShield
import AstroMine.Guard.PositionFallback
import AstroMine.Guard.Prediction
import AstroMine.Guard.Response
import AstroMine.Guard.SafetySpec
import AstroMine.Guard.SampleClock
import AstroMine.Guard.ScalarBounds
import AstroMine.Guard.Shield
import AstroMine.Guard.SpecCompiler
import AstroMine.Guard.Verdicts
import AstroMine.Hub.Agreement
import AstroMine.Hub.BestMatch
import AstroMine.Hub.Catalog
import AstroMine.Hub.Client
import AstroMine.Hub.ErrorContract
import AstroMine.Hub.GarbageCollect
import AstroMine.Hub.Governance
import AstroMine.Hub.Oci
import AstroMine.Hub.References
import AstroMine.Hub.Resolve
import AstroMine.Hub.Search
import AstroMine.Hub.SqlCatalog
import AstroMine.Hub.Store
import AstroMine.Hub.SupplyChain
import AstroMine.Learn.Accounting
import AstroMine.Learn.Comms
import AstroMine.Learn.Curriculum
import AstroMine.Learn.Delivery
import AstroMine.Learn.Gae
import AstroMine.Learn.Realization
import AstroMine.Learn.Rollout
import AstroMine.Lib.Agree
import AstroMine.Lib.Bfs
import AstroMine.Lib.BoundedWalk
import AstroMine.Lib.CaseMap
import AstroMine.Lib.Commute
import AstroMine.Lib.DeletionFilter
import AstroMine.Lib.Dict
import AstroMine.Lib.DrawSeq
import AstroMine.Lib.Except
import AstroMine.Lib.FixedWidth
import AstroMine.Lib.Flt
import AstroMine.Lib.Grid
import AstroMine.Lib.Intervals
import AstroMine.Lib.Joined
import AstroMine.Lib.Kahn
import AstroMine.Lib.LabelSetting
import AstroMine.Lib.Memo
import AstroMine.Lib.NamedStreams
import AstroMine.Lib.OrderStat
import AstroMine.Lib.PastStl
import AstroMine.Lib.Peeling
import AstroMine.Lib.PrefixCode
import AstroMine.Lib.RadicalInverse
import AstroMine.Lib.Ranking
import AstroMine.Lib.RealVec
import AstroMine.Lib.Recent
import AstroMine.Lib.RingBuf
import AstroMine.Lib.Rounding
import AstroMine.Lib.Transition
import AstroMine.Lib.Tridiagonal
import AstroMine.Lib.Windows
import AstroMine.Lib.Worklist
import AstroMine.Link.ContactGraph
import AstroMine.Link.Delivery
import AstroMine.Link.Instantaneous
import AstroMine.Link.Reach
import AstroMine.Link.Sampler
import AstroMine.Link.Slowed
import AstroMine.Link.WindowSearch
import AstroMine.Mind.BehaviorTree
import AstroMine.Mind.Coordination
import AstroMine.Mind.Horizon
import AstroMine.Mind.LeafFaults
import AstroMine.Mind.MotionPlanner
import AstroMine.Mind.StackPolicy
import AstroMine.Mind.Strategy
import AstroMine.Mind.TreeXml
import AstroMine.Mind.TriggerOrder
import AstroMine.Prospect.Archive
import AstroMine.Prospect.Belief
import AstroMine.Prospect.Isolation
import AstroMine.Seal.FailsClosed
import AstroMine.Seal.Trust
import AstroMine.Seal.Verify
import AstroMine.Sim.Clock
import AstroMine.Sim.Coupling
import AstroMine.Sim.Engines
import AstroMine.Sim.OrderFree
import AstroMine.Sim.RngStreams
import AstroMine.Sim.ValueChain
import AstroMine.Studio.Batches
import AstroMine.Studio.Hypervolume
import AstroMine.Studio.Jobs
import AstroMine.Studio.Pareto
import AstroMine.Surrogate.Conformal
import AstroMine.Surrogate.Drift
import AstroMine.Validator.UnitsAgree
import AstroMine.Worlds.Diurnal
import AstroMine.Worlds.Raycast
import AstroMine.Worlds.Thermal
import AstroMine.Worlds.ThermalSource
