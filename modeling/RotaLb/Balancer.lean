import RotaLb.Address
import RotaLb.Retry
import RotaLb.Strategy

/-!
# The Load Balancer

The `LoadBalancer` with its three parallel vectors, its constructors and builder, the
critical sections of a dial, the drop guard of a connection, and the reconfiguration
operations. Counters are updated as a release build updates them.

A dial is not one function here: `dial_with_options` awaits between its critical sections
(two locks, every attempt, every back-off sleep), and other tasks run there. Each section
that runs without an await is one definition, and `RotaLb.World` interleaves them.

A boxed backend is opaque to the balancer. Its identity is its `tag`, given to it when it
enters the pool and read by no operation; `ptr` is the address that `std::ptr::eq`
compares, which two backends of a zero-sized type may share.
-/

namespace RotaLb

open Rust

/-- A `Box<dyn Backend>`. -/
structure Backend where
  tag : Nat
  ptr : Nat
  deriving DecidableEq

/-- What `BackendFactory::create` returns. -/
structure BackendOutput where
  backend : Backend
  initialMetrics : TunnelMetrics

/-- The load balancer over strategies of type `σ`. The metrics lock, the strategy lock and
the atomic generation are represented by what they protect. -/
structure LoadBalancer (σ : Type) where
  backends : List Backend
  ids : List (Option String)
  metrics : List TunnelMetrics
  strategy : σ
  generation : UInt64
  dialTimeout : Option Duration
  retryPolicy : Option RetryPolicy

/-- The result of a reconfiguration: its value, the balancer it leaves, and the backends it
called `shutdown` on, in order. -/
structure Done (σ α : Type) where
  value : α
  lb : LoadBalancer σ
  shutdown : List Backend := []

namespace LoadBalancer

variable {σ : Type}

/-! ### Construction -/

/-- `LoadBalancer::new_with_metrics`. -/
def newWithMetrics (backends : List Backend) (initialMetrics : List TunnelMetrics)
    (strategy : σ) (dialTimeout : Option Duration) (retryPolicy : Option RetryPolicy) :
    Except Error (LoadBalancer σ) :=
  let n := backends.length
  let m := initialMetrics.length
  if backends.isEmpty then
    .error .noBackends
  else if m ≠ n then
    .error (.factory s!"initial_metrics.len() ({m}) must equal backends.len() ({n})")
  else
    .ok { backends, ids := List.replicate n none, metrics := initialMetrics, strategy,
          generation := 0, dialTimeout, retryPolicy }

/-- `LoadBalancer::new`. -/
def new (backends : List Backend) (strategy : σ) : Except Error (LoadBalancer σ) :=
  newWithMetrics backends (backends.map fun _ => default) strategy none none

/-- The creation loop: one `create` per factory, in order, ending at the first error. A
factory stands for what its `create` returns. -/
def createAll : List (Except Error BackendOutput) → Except Error (List Backend × List TunnelMetrics)
  | [] => .ok ([], [])
  | f :: fs => do
    let out ← f
    let (backends, metrics) ← createAll fs
    return (out.backend :: backends, out.initialMetrics :: metrics)

/-- `LoadBalancer::from_factories`. -/
def fromFactories (factories : List (Except Error BackendOutput)) (strategy : σ) :
    Except Error (LoadBalancer σ) :=
  if factories.isEmpty then
    .error .noBackends
  else do
    let (backends, metrics) ← createAll factories
    return { backends, ids := List.replicate backends.length none, metrics, strategy,
             generation := 0, dialTimeout := none, retryPolicy := none }

end LoadBalancer

/-- `LoadBalancerBuilder`. -/
structure LoadBalancerBuilder (σ : Type) where
  backends : Option (List Backend) := none
  factories : Option (List (Except Error BackendOutput)) := none
  initialMetrics : Option (List TunnelMetrics) := none
  strategy : Option σ := none
  dialTimeout : Option Duration := none
  retryPolicy : Option RetryPolicy := none

namespace LoadBalancerBuilder

variable {σ : Type}

/-- The metrics the builder seeds: the caller's when their number is right, the given
default when there are none. -/
def seeds (initialMetrics : Option (List TunnelMetrics)) (n : Nat) (what : String)
    (fallback : List TunnelMetrics) : Except Error (List TunnelMetrics) :=
  match initialMetrics with
  | none => .ok fallback
  | some ms =>
    let m := ms.length
    if m = n then .ok ms
    else .error (.factory s!"initial_metrics.len() ({m}) must equal {what}.len() ({n})")

/-- `LoadBalancerBuilder::build`. -/
def build (b : LoadBalancerBuilder σ) : Except Error (LoadBalancer σ) :=
  match b.strategy with
  | none => .error (.factory "strategy required")
  | some strategy =>
    match b.backends, b.factories with
    | some backends, none => do
      let metrics ← seeds b.initialMetrics backends.length "backends"
        (List.replicate backends.length default)
      LoadBalancer.newWithMetrics backends metrics strategy b.dialTimeout b.retryPolicy
    | none, some factories =>
      if factories.isEmpty then
        .error .noBackends
      else do
        let (created, createdMetrics) ← LoadBalancer.createAll factories
        let metrics ← seeds b.initialMetrics factories.length "factories" createdMetrics
        LoadBalancer.newWithMetrics created metrics strategy b.dialTimeout b.retryPolicy
    | some _, some _ => .error (.factory "cannot set both backends and factories")
    | none, none => .error (.factory "backends or factories required")

end LoadBalancerBuilder

namespace LoadBalancer

variable {σ : Type}

/-! ### The critical sections of a dial -/

/-- A dial routed to a backend: one more connection and one more dial. -/
def countDial (m : TunnelMetrics) : TunnelMetrics :=
  { m with activeConnections := m.activeConnections + 1, totalDials := m.totalDials + 1 }

/-- What `handle_dial_success` records. -/
def recordSuccess (m : TunnelMetrics) : TunnelMetrics :=
  { m with recentErrors := 0 }

/-- What `handle_dial_error` records. -/
def recordError (m : TunnelMetrics) : TunnelMetrics :=
  { m with
    activeConnections := saturatingDec m.activeConnections
    totalErrors := saturatingInc64 m.totalErrors
    recentErrors := saturatingInc m.recentErrors }

/-- What the drop guard does to a backend's metrics. -/
def recordDrop (m : TunnelMetrics) : TunnelMetrics :=
  { m with activeConnections := saturatingDec m.activeConnections }

/-- The section under both locks: the strategy picks on the live metrics, and the picked
backend is counted before the locks are released. -/
def pickBackend [BalanceStrategy σ] (env : Env) (draw : Nat) (lb : LoadBalancer σ)
    (addr : String) : Except Panic (Nat × LoadBalancer σ) := do
  let (idx, strategy) ← BalanceStrategy.pick env draw lb.strategy ⟨addr, lb.metrics⟩
  let metrics ← Vec.modify lb.metrics idx countDial
  return (idx, { lb with metrics, strategy })

/-- How `dial_with_options` begins: the address or the empty pool is refused, or a backend
is picked and its `dial` is called for the first time. -/
inductive Begun (σ : Type)
  | refused (e : Error)
  | picked (idx : Nat) (backend : Backend) (gen : UInt64) (lb : LoadBalancer σ)

/-- `dial_with_options` up to its first attempt. -/
def beginDial [BalanceStrategy σ] (env : Env) (draw : Nat) (lb : LoadBalancer σ)
    (addr : String) : Except Panic (Begun σ) :=
  match validateDialAddr addr with
  | .error e => .ok (.refused e)
  | .ok () =>
    if lb.backends.isEmpty then
      .ok (.refused .noBackends)
    else do
      let (idx, lb) ← lb.pickBackend env draw addr
      let backend ← Vec.get lb.backends idx
      return .picked idx backend lb.generation lb

/-- The metrics section of `handle_dial_success`. -/
def handleDialSuccess (lb : LoadBalancer σ) (idx : Nat) : LoadBalancer σ :=
  { lb with metrics := lb.metrics.modify idx recordSuccess }

/-- The metrics section of `handle_dial_error`. -/
def handleDialError (lb : LoadBalancer σ) (idx : Nat) : LoadBalancer σ :=
  { lb with metrics := lb.metrics.modify idx recordError }

/-- The strategy section of `handle_dial_success`. -/
def reportSuccess [BalanceStrategy σ] (lb : LoadBalancer σ) (idx : Nat) :
    Except Panic (LoadBalancer σ) := do
  return { lb with strategy := ← BalanceStrategy.reportSuccess lb.strategy idx }

/-- The strategy section of `handle_dial_error`. -/
def reportError [BalanceStrategy σ] (lb : LoadBalancer σ) (idx : Nat) :
    Except Panic (LoadBalancer σ) := do
  return { lb with strategy := ← BalanceStrategy.reportError lb.strategy idx }

/-! ### Reconfiguration -/

/-- Append a backend with default metrics. -/
def pushBackend (lb : LoadBalancer σ) (id : Option String) (backend : Backend) : Done σ Nat :=
  { value := lb.backends.length
    lb := { lb with
      backends := lb.backends ++ [backend]
      ids := lb.ids ++ [id]
      metrics := lb.metrics ++ [default] } }

/-- `add_backend`. -/
def addBackend (lb : LoadBalancer σ) (backend : Backend) : Done σ Nat :=
  lb.pushBackend none backend

/-- `add_backend_with_id`. -/
def addBackendWithId (lb : LoadBalancer σ) (id : String) (backend : Backend) : Done σ Nat :=
  lb.pushBackend (some id) backend

/-- `remove_backend`. -/
def removeBackend (lb : LoadBalancer σ) (index : Nat) : Except Panic (Done σ Bool) :=
  if lb.backends.length ≤ index then
    .ok { value := false, lb }
  else do
    let generation := lb.generation + 1
    let (backend, backends) ← Vec.remove lb.backends index
    let (_, ids) ← Vec.remove lb.ids index
    let (_, metrics) ← Vec.remove lb.metrics index
    return { value := true, lb := { lb with generation, backends, ids, metrics },
             shutdown := [backend] }

/-- `remove_backend_by_ptr`: the first backend at this address. -/
def removeBackendByPtr (lb : LoadBalancer σ) (ptr : Nat) : Except Panic (Done σ Bool) :=
  match lb.backends.findIdx? (·.ptr = ptr) with
  | some idx => lb.removeBackend idx
  | none => .ok { value := false, lb }

/-- `remove_backend_by_id`: the first backend with this id. -/
def removeBackendById (lb : LoadBalancer σ) (id : String) : Except Panic (Done σ Bool) :=
  match lb.ids.findIdx? (· = some id) with
  | some idx => lb.removeBackend idx
  | none => .ok { value := false, lb }

/-- `replace_backends`. -/
def replaceBackends (lb : LoadBalancer σ) (newBackends : List Backend) (strategy : Option σ) :
    Except Error (Done σ Unit) :=
  if newBackends.isEmpty then
    .error .noBackends
  else
    .ok { value := ()
          lb := { lb with
            generation := lb.generation + 1
            backends := newBackends
            ids := List.replicate newBackends.length none
            metrics := List.replicate newBackends.length default
            strategy := strategy.getD lb.strategy }
          shutdown := lb.backends }

/-- `drain_backend`: mark the backend by `u32::MAX` recent errors. -/
def drainBackend (lb : LoadBalancer σ) (index : Nat) : Done σ Bool :=
  if lb.backends.length ≤ index then
    { value := false, lb }
  else
    { value := true
      lb := { lb with
        metrics := lb.metrics.modify index fun m => { m with recentErrors := u32Max } } }

/-- `is_draining`. -/
def isDraining (lb : LoadBalancer σ) (index : Nat) : Bool :=
  lb.metrics[index]?.any (·.recentErrors = u32Max)

/-- `undrain_backend`. -/
def undrainBackend (lb : LoadBalancer σ) (index : Nat) : Done σ Bool :=
  if lb.isDraining index then
    { value := true
      lb := { lb with metrics := lb.metrics.modify index fun m => { m with recentErrors := 0 } } }
  else
    { value := false, lb }

/-- `set_strategy`. -/
def setStrategy (lb : LoadBalancer σ) (strategy : σ) : LoadBalancer σ :=
  { lb with strategy }

end LoadBalancer

/-! ### The drop guard -/

/-- The guard inside a `GuardedConnection`. -/
structure ActiveConnectionGuard where
  index : Nat
  genAtCreation : UInt64
  deriving DecidableEq

namespace ActiveConnectionGuard

variable {σ : Type}

/-- The first half of `drop`: the generation has not changed since the guard was made. -/
def unchanged (g : ActiveConnectionGuard) (lb : LoadBalancer σ) : Bool :=
  lb.generation = g.genAtCreation

/-- The second half of `drop`, with the lock obtained. -/
def decrement (g : ActiveConnectionGuard) (lb : LoadBalancer σ) : LoadBalancer σ :=
  { lb with metrics := lb.metrics.modify g.index LoadBalancer.recordDrop }

end ActiveConnectionGuard

end RotaLb
