import RotaLb.Metrics
import RotaLb.Scan

/-!
# The Balance Strategies

The `BalanceStrategy` trait and the nine built-in strategies, each with the state it
keeps between calls. A call that indexes, divides or overflows may panic, so `pick` and
`report_error` return in `Except Panic`; the arithmetic that can leave its width takes
the build `Profile`.

What a strategy obtains from outside is collected in `Env`: the 64-bit hash of an address
and the values `gen_range` draws. The `draw` argument of `pick` numbers the draw.

`Builtin` is the boxed strategy `Box<dyn BalanceStrategy>` restricted to the nine types
of the crate. It is an instance of the trait with release-build arithmetic; the balancer
is generic over any instance.
-/

namespace RotaLb

open Rust Scan

/-- What a strategy reads from outside the crate. -/
structure Env where
  /-- `DefaultHasher` fed with a dial address. -/
  finish : String → UInt64
  /-- The value of draw number `draw` of `thread_rng().gen_range(0..n)`. -/
  genRange : (draw n : Nat) → Nat
  /-- `gen_range` returns a value of the range it is given. -/
  genRange_lt : ∀ draw n, 0 < n → genRange draw n < n

/-- An environment in which every hash is 0 and draw number `k` is `k`, reduced to the range. -/
def Env.plain : Env := ⟨fun _ => 0, fun draw n => draw % n, fun _ _ h => Nat.mod_lt _ h⟩

/-- The `BalanceStrategy` trait. -/
class BalanceStrategy (σ : Type) where
  /-- Pick an index for a dial. -/
  pick : Env → (draw : Nat) → σ → PoolView → Except Panic (Nat × σ)
  /-- Told of a dial that failed on an index; does nothing by default. -/
  reportError : σ → Nat → Except Panic σ := fun s _ => .ok s
  /-- Told of a dial that succeeded on an index; does nothing by default. -/
  reportSuccess : σ → Nat → Except Panic σ := fun s _ => .ok s
  /-- The strategy's name in logs. -/
  name : σ → String

/-! ### Round robin -/

/-- Walk the backends in order, wrapping at the end. -/
structure RoundRobin where
  next : Nat
  deriving DecidableEq

namespace RoundRobin

/-- Start at index 0. -/
def new : RoundRobin := ⟨0⟩

/-- `idx + 1` does not overflow: `idx` is below a length. -/
def pick (s : RoundRobin) (view : PoolView) : Except Panic (Nat × RoundRobin) := do
  let idx ← rem s.next view.len
  return (idx, { s with next := idx + 1 })

end RoundRobin

/-! ### Random -/

/-- `thread_rng().gen_range(0..n)`, which panics on an empty range. -/
def Random.pick (env : Env) (draw : Nat) (view : PoolView) : Except Panic Nat :=
  if view.len = 0 then .error .emptyRange else .ok (env.genRange draw view.len)

/-! ### Lowest RTT -/

/-- The scan both copies of `find_lowest_rtt` run: best index and best RTT so far. -/
def lowestRttScan (metrics : List TunnelMetrics) : Nat × Duration :=
  forEnum metrics (0, Duration.MAX) fun best i m =>
    match m.rtt with
    | some rtt => if rtt < best.2 then (i, rtt) else best
    | none => best

/-- `find_lowest_rtt` of `lowest_rtt.rs`. -/
def LowestRtt.findLowestRtt (metrics : List TunnelMetrics) : Nat :=
  (lowestRttScan metrics).1

/-- The backend with the lowest measured RTT, the first one on a tie. -/
def LowestRtt.pick (view : PoolView) : Nat :=
  LowestRtt.findLowestRtt view.metrics

/-! ### Least connections -/

/-- The RTT of a backend, an unknown one read as `Duration::MAX`. -/
def TunnelMetrics.rttOrMax (m : TunnelMetrics) : Duration :=
  m.rtt.getD Duration.MAX

/-- The backend with the fewest active connections, ties broken by the lower RTT. The
tie branch reads the best backend again through its index. -/
def LeastConnections.pick (view : PoolView) : Except Panic Nat := do
  let best ← forEnumM view.metrics (0, u32Max) fun best i m =>
    if m.activeConnections < best.2 then
      .ok (i, m.activeConnections)
    else if m.activeConnections = best.2 then do
      let b ← Vec.get view.metrics best.1
      if m.rttOrMax < b.rttOrMax then return (i, best.2) else return best
    else
      .ok best
  return best.1

/-! ### Hash by address -/

/-- The hash of the dial address modulo the pool size; `usize` has 64 bits. -/
def HashByAddr.pick (env : Env) (view : PoolView) : Except Panic Nat :=
  rem ((tryFrom 64 (env.finish view.dialAddr).toNat).getD 0) view.len

/-! ### Weighted round robin -/

/-- Round robin weighted by inverse RTT: the RTTs the weights were computed from, the
weights, and the picks since. -/
structure WeightedRoundRobin where
  rtts : List (Option Duration)
  weights : List Nat
  picks : List Nat
  deriving DecidableEq

namespace WeightedRoundRobin

def new : WeightedRoundRobin := ⟨[], [], []⟩

/-- The weight of one backend: `max(1, 1000 / rtt_ms)`, and 1 without an RTT. -/
def weight (rtt : Option Duration) : Nat :=
  match rtt with
  | none => MIN_WEIGHT
  | some r =>
    let ms := max ((tryFrom 64 r.asMillis).getD 1) 1
    (tryFrom 32 (max (MS_PER_SECOND / ms) MIN_WEIGHT)).getD MIN_WEIGHT

/-- Recompute the weights from the RTTs and forget all picks. -/
def rebuild (s : WeightedRoundRobin) : WeightedRoundRobin :=
  let weights := s.rtts.map weight
  { s with weights, picks := List.replicate weights.length 0 }

/-- Take over the RTTs of the view, rebuilding when any of them changed. -/
def refresh (s : WeightedRoundRobin) (view : PoolView) : WeightedRoundRobin :=
  let newRtts := view.metrics.map TunnelMetrics.rtt
  if newRtts ≠ s.rtts then rebuild { s with rtts := newRtts } else s

/-- The scan for the least-served index, comparing `picks / weight` by cross
multiplication in `u64`. -/
def leastServed (p : Profile) (s : WeightedRoundRobin) : Except Panic Nat :=
  forRangeM 1 (s.weights.length - 1) 0 fun best i => do
    let lhs ← p.mul 64 (← Vec.get s.picks i) (← Vec.get s.weights best)
    let rhs ← p.mul 64 (← Vec.get s.picks best) (← Vec.get s.weights i)
    return if lhs < rhs then i else best

def pick (p : Profile) (s : WeightedRoundRobin) (view : PoolView) :
    Except Panic (Nat × WeightedRoundRobin) := do
  let s := refresh s view
  if s.weights.isEmpty then
    return (0, s)
  let best ← leastServed p s
  let count ← p.add 64 (← Vec.get s.picks best) 1
  let picks ← Vec.modify s.picks best fun _ => count
  return (best, { s with picks })

end WeightedRoundRobin

/-! ### Failover -/

/-- Use the primary until it fails, then move to the next index. -/
structure Failover where
  primary : Nat
  len : Nat
  deriving DecidableEq

namespace Failover

/-- The pool size is learnt at the first pick. -/
def new : Failover := ⟨0, 0⟩

def withBackendCount (backendCount : Nat) : Failover := ⟨0, backendCount⟩

def pick (s : Failover) (view : PoolView) : Except Panic (Nat × Failover) := do
  let s := { s with len := view.len }
  if s.len = 0 then
    return (0, s)
  let idx ← rem s.primary s.len
  return (idx, s)

/-- The reported index is compared with the stored primary, not with its remainder. -/
def reportError (p : Profile) (s : Failover) (idx : Nat) : Except Panic Failover := do
  let len ← if 0 < s.len then .ok s.len else p.add 64 idx 1
  if idx = s.primary then
    let primary ← rem (← p.add 64 idx 1) len
    return { s with primary }
  else
    return s

end Failover

/-! ### Health weighted -/

/-- `rtt_us + 500000 * recent_errors + 10000 * active_connections`, in `u64`. -/
def HealthWeighted.score (p : Profile) (m : TunnelMetrics) : Except Panic Nat := do
  let rttUs :=
    match m.rtt with
    | none => DEFAULT_RTT_US
    | some r => (tryFrom 64 r.asMicros).getD DEFAULT_RTT_US
  let errorPenalty ← p.mul 64 m.recentErrors.toNat ERROR_PENALTY_US
  let loadPenalty ← p.mul 64 m.activeConnections.toNat LOAD_PENALTY_US
  p.add 64 (← p.add 64 rttUs errorPenalty) loadPenalty

/-- The backend with the lowest score. -/
def HealthWeighted.pick (p : Profile) (view : PoolView) : Except Panic Nat := do
  let best ← forEnumM view.metrics (0, u64Max) fun best i m => do
    let score ← HealthWeighted.score p m
    return if score < best.2 then (i, score) else best
  return best.1

/-! ### Sticky -/

/-- Pin to the first backend chosen. -/
structure Sticky where
  pinned : Option Nat
  deriving DecidableEq

namespace Sticky

def new : Sticky := ⟨none⟩

/-- `find_lowest_rtt` of `sticky.rs`. -/
def findLowestRtt (metrics : List TunnelMetrics) : Nat :=
  (lowestRttScan metrics).1

def pick (s : Sticky) (view : PoolView) : Nat × Sticky :=
  match s.pinned with
  | some idx => (min idx (view.len - 1), s)
  | none =>
    let best := findLowestRtt view.metrics
    (best, { s with pinned := some best })

end Sticky

/-! ### The nine built-in strategies as one type -/

/-- A boxed built-in strategy with its current state. -/
inductive Builtin
  | roundRobin (s : RoundRobin)
  | random
  | lowestRtt
  | leastConnections
  | hashByAddr
  | weightedRoundRobin (s : WeightedRoundRobin)
  | failover (s : Failover)
  | healthWeighted
  | sticky (s : Sticky)
  deriving DecidableEq

namespace Builtin

/-- `BalanceStrategy::pick` of the boxed strategy. -/
def pick (p : Profile) (env : Env) (draw : Nat) (s : Builtin) (view : PoolView) :
    Except Panic (Nat × Builtin) :=
  match s with
  | roundRobin s => do
    let (i, s) ← s.pick view
    return (i, roundRobin s)
  | random => do return (← Random.pick env draw view, random)
  | lowestRtt => .ok (LowestRtt.pick view, lowestRtt)
  | leastConnections => do return (← LeastConnections.pick view, leastConnections)
  | hashByAddr => do return (← HashByAddr.pick env view, hashByAddr)
  | weightedRoundRobin s => do
    let (i, s) ← s.pick p view
    return (i, weightedRoundRobin s)
  | failover s => do
    let (i, s) ← s.pick view
    return (i, failover s)
  | healthWeighted => do return (← HealthWeighted.pick p view, healthWeighted)
  | sticky s => .ok ((s.pick view).1, sticky (s.pick view).2)

/-- `BalanceStrategy::report_error`: only `Failover` reacts. -/
def reportError (p : Profile) (s : Builtin) (idx : Nat) : Except Panic Builtin :=
  match s with
  | failover s => do return failover (← s.reportError p idx)
  | s => .ok s

def name : Builtin → String
  | roundRobin _ => STRATEGY_NAMES[0]
  | random => STRATEGY_NAMES[1]
  | lowestRtt => STRATEGY_NAMES[2]
  | leastConnections => STRATEGY_NAMES[3]
  | hashByAddr => STRATEGY_NAMES[4]
  | weightedRoundRobin _ => STRATEGY_NAMES[5]
  | failover _ => STRATEGY_NAMES[6]
  | healthWeighted => STRATEGY_NAMES[7]
  | sticky _ => STRATEGY_NAMES[8]

/-- The states the constructors of the nine strategies make. -/
inductive Constructed : Builtin → Prop
  | roundRobin : Constructed (roundRobin .new)
  | random : Constructed random
  | lowestRtt : Constructed lowestRtt
  | leastConnections : Constructed leastConnections
  | hashByAddr : Constructed hashByAddr
  | weightedRoundRobin : Constructed (weightedRoundRobin .new)
  | failover : Constructed (failover .new)
  | failoverWith (backendCount : Nat) : Constructed (failover (.withBackendCount backendCount))
  | healthWeighted : Constructed healthWeighted
  | sticky : Constructed (sticky .new)

end Builtin

instance : BalanceStrategy Builtin where
  pick env draw s view := Builtin.pick .release env draw s view
  reportError s idx := Builtin.reportError .release s idx
  name := Builtin.name

end RotaLb
