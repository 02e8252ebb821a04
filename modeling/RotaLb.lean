import RotaLb.StepSystem
import RotaLb.Refinement
import RotaLb.Rust
import RotaLb.Scan
import RotaLb.Apportion
import RotaLb.Keyed
import RotaLb.Ledger
import RotaLb.Custody
import RotaLb.Metrics
import RotaLb.Pool
import RotaLb.Strategy
import RotaLb.StrategySafety
import RotaLb.ScanOrder
import RotaLb.Overflow
import RotaLb.Address
import RotaLb.AddressGrammar
import RotaLb.Retry
import RotaLb.Balancer
import RotaLb.World
import RotaLb.Steps
import RotaLb.Slots
import RotaLb.Construction
import RotaLb.Load
import RotaLb.Accounting
import RotaLb.ErrorHistory
import RotaLb.DirectRuns
import RotaLb.DropRace
import RotaLb.LostDecrements
import RotaLb.IndexSafety
import RotaLb.Replace
import RotaLb.Windows
import RotaLb.Drain
import RotaLb.Pinning
import RotaLb.FixedPool
import RotaLb.Routing
import RotaLb.Shunning
import RotaLb.TornRemoval
import RotaLb.EvenShares
import RotaLb.PeakLoad
import RotaLb.WeightedShares
import RotaLb.WeightedWindows
import RotaLb.RttWeights
import RotaLb.Discovery
import RotaLb.ConsulListing
import RotaLb.Reconcile
import RotaLb.DiscoverTasks
import RotaLb.DiscoverShutdown
import RotaLb.Tracking
import RotaLb.Tenure
import RotaLb.Lifecycle
import RotaLb.Health
import RotaLb.HealthHistory
import RotaLb.Dialing
import RotaLb.RetryBounds
import RotaLb.FailoverRing
import RotaLb.Tls
import RotaLb.Ffi
import RotaLb.FfiReadback
import RotaLb.FfiSafety
import RotaLb.FfiRenewal
import RotaLb.FfiThreads
import RotaLb.FfiLockstep
import RotaLb.Locks
import RotaLb.LockRefinement
import RotaLb.LockProgress
