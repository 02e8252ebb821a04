import Mathlib.Data.Nat.Basic
import Mathlib.Order.Lattice
import RotaLb.Rust

/-!
# Metrics, Views and Errors

The data the balancer keeps about its backends and hands to a strategy: durations, the
per-backend `TunnelMetrics`, the `PoolView` a strategy picks from, the errors a dial or a
constructor returns, and the numeric constants of the strategies.

A `Duration` is held as its number of nanoseconds, below `2 ^ 64` seconds; seconds and
sub-second nanoseconds are its quotient and remainder, and the derived order of the
source is the order of the totals.
-/

namespace RotaLb

open Rust

/-- `std::time::Duration`: a `u64` number of seconds plus nanoseconds below a second. -/
structure Duration where
  nanos : Nat
  nanos_lt : nanos < 2 ^ 64 * 10 ^ 9
  deriving DecidableEq

namespace Duration

/-- A duration is determined by its nanoseconds. -/
theorem nanos_injective : Function.Injective nanos := by
  rintro ⟨a, ha⟩ ⟨b, hb⟩ h
  cases h
  rfl

instance : LinearOrder Duration :=
  LinearOrder.lift' nanos nanos_injective

/-- `Duration::MAX`. -/
def MAX : Duration := ⟨2 ^ 64 * 10 ^ 9 - 1, by decide⟩

/-- No duration exceeds `Duration::MAX`. -/
theorem le_MAX (d : Duration) : d ≤ MAX :=
  Nat.le_sub_one_of_lt d.nanos_lt

/-- `Duration::from_millis`. -/
def fromMillis (ms : UInt64) : Duration :=
  ⟨ms.toNat * 10 ^ 6, by have := ms.toNat_lt; omega⟩

/-- `Duration::from_micros`. -/
def fromMicros (us : UInt64) : Duration :=
  ⟨us.toNat * 10 ^ 3, by have := us.toNat_lt; omega⟩

/-- `Duration::from_secs`. -/
def fromSecs (secs : UInt64) : Duration :=
  ⟨secs.toNat * 10 ^ 9, by have := secs.toNat_lt; omega⟩

/-- The duration of a number of nanoseconds, at most `Duration::MAX`: what `Instant::elapsed`
returns. -/
def ofNanos (n : Nat) : Duration :=
  ⟨min n (2 ^ 64 * 10 ^ 9 - 1), by omega⟩

/-- An elapsed time is below a duration exactly when its nanoseconds are. -/
theorem ofNanos_lt {n : Nat} {d : Duration} : ofNanos n < d ↔ n < d.nanos := by
  have hlt := d.nanos_lt
  have hiff : ofNanos n < d ↔ min n (2 ^ 64 * 10 ^ 9 - 1) < d.nanos := Iff.rfl
  rw [hiff]
  omega

/-- `Duration::as_millis`, a `u128`. -/
def asMillis (d : Duration) : Nat := d.nanos / 10 ^ 6

/-- `Duration::as_micros`, a `u128`. -/
def asMicros (d : Duration) : Nat := d.nanos / 10 ^ 3

/-- Whole microseconds survive in a `Duration`. -/
theorem asMicros_fromMicros (us : UInt64) : (fromMicros us).asMicros = us.toNat :=
  Nat.mul_div_cancel _ (by decide)

end Duration

/-- Live metrics of one backend. -/
structure TunnelMetrics where
  /-- Last-measured RTT, `none` if not probed. -/
  rtt : Option Duration := none
  /-- Connections open on the backend right now. -/
  activeConnections : UInt32 := 0
  /-- Dial errors since the last success; `u32::MAX` marks a draining backend. -/
  recentErrors : UInt32 := 0
  /-- Dials routed to the backend. -/
  totalDials : UInt64 := 0
  /-- Dials that failed on the backend. -/
  totalErrors : UInt64 := 0
  deriving DecidableEq

/-- `TunnelMetrics::default()`: no RTT and zero counters. -/
instance : Inhabited TunnelMetrics := ⟨{}⟩

/-- `u32::MAX`. -/
def u32Max : UInt32 := 0xFFFFFFFF

/-- `u64::MAX`. -/
def u64Max : Nat := 2 ^ 64 - 1

/-- What a strategy sees of the pool at a dial. -/
structure PoolView where
  dialAddr : String
  metrics : List TunnelMetrics

/-- The number of backends in the view. -/
def PoolView.len (view : PoolView) : Nat := view.metrics.length

/-- The errors of the balancer and of its backends. -/
inductive Error
  | invalidAddress (addr reason : String)
  | noBackends
  | factory (msg : String)
  | backend (msg : String)
  | io (msg : String)
  deriving DecidableEq, Repr

/-! ### Constants -/

def MS_PER_SECOND : Nat := 1000
def MIN_WEIGHT : Nat := 1
def ERROR_PENALTY_US : Nat := 500000
def LOAD_PENALTY_US : Nat := 10000
def DEFAULT_RTT_US : Nat := 1000000

/-- The strategy names, in the order of the FFI discriminants. -/
def STRATEGY_NAMES : List String :=
  ["round_robin", "random", "lowest_rtt", "least_connections", "hash_by_addr",
    "weighted_round_robin", "failover", "health_weighted", "sticky"]

end RotaLb
