import RotaLb.IndexSafety

/-!
# Replacing the Pool

`replace_backends` awaits between its changes: each old backend's `shutdown`, then the
metrics lock, then the strategy lock. Its future may be dropped at any of these points, and
the balancer stays as the code has left it there. `backends.drain(..)` empties the vector
when the drain is dropped, whatever was still in it, so from the first shutdown to the
metrics lock the balancer has no backends and still has the old metrics.

## Main results

* `replaceBackends_eq_stages`: run to its end, the stages are `replace_backends`.
* `replace_torn`: **a dropped call leaves vectors of different lengths**, and later dials
  index out of range.
* `replace_atomic_iff`: the balancer left behind holds one whole pool and stays safe exactly
  when the call was dropped at the strategy lock.
-/

namespace RotaLb

open Rust StepSystem

variable {σ : Type}

/-- An await point of `replace_backends`. -/
inductive ReplacePoint
  /-- `shutdown` of the old backend at this index. -/
  | shutdown (i : ℕ)
  | metricsLock
  | strategyLock
  deriving DecidableEq

namespace LoadBalancer

/-- The generation is counted up and the old backends are taken out. -/
def replaceDrain (lb : LoadBalancer σ) : LoadBalancer σ :=
  { lb with generation := lb.generation + 1, backends := [] }

/-- The ids are cleared and resized. -/
def replaceIds (lb : LoadBalancer σ) (n : ℕ) : LoadBalancer σ :=
  { lb with ids := List.replicate n none }

/-- With the metrics lock obtained, metrics and backends are replaced. -/
def replacePool (lb : LoadBalancer σ) (newBackends : List Backend) : LoadBalancer σ :=
  { lb with metrics := List.replicate newBackends.length default, backends := newBackends }

/-- The await points that a call reaches. -/
def replaceAwaits (lb : LoadBalancer σ) (strategy : Option σ) : ReplacePoint → Bool
  | .shutdown i => i < lb.backends.length
  | .metricsLock => true
  | .strategyLock => strategy.isSome

/-- The balancer left behind by a call that is dropped at an await point. -/
def replaceDroppedAt (lb : LoadBalancer σ) (newBackends : List Backend) :
    ReplacePoint → LoadBalancer σ
  | .shutdown _ => lb.replaceDrain
  | .metricsLock => lb.replaceDrain.replaceIds newBackends.length
  | .strategyLock => (lb.replaceDrain.replaceIds newBackends.length).replacePool newBackends

/-- **Run to its end, the stages are `replace_backends`.** -/
theorem replaceBackends_eq_stages (lb : LoadBalancer σ) {newBackends : List Backend}
    (hne : newBackends ≠ []) (strategy : Option σ) :
    lb.replaceBackends newBackends strategy = .ok
      { value := ()
        lb := (lb.replaceDroppedAt newBackends .strategyLock).setStrategy
          (strategy.getD lb.strategy)
        shutdown := lb.backends } := by
  rw [replaceBackends, if_neg (by simpa using hne)]
  rfl

end LoadBalancer

/-- The event belongs to a dial or adds a backend. -/
def Event.DialsOrAdds : Event σ → Prop
  | .start .. | .attempted .. | .woke _ | .lockMetrics _ | .lockStrategy _ | .cancel _
  | .addBackend _ | .addBackendWithId .. => True
  | _ => False

namespace World

/-- The world after a `replace_backends` call was dropped at an await point. -/
def droppedReplace (w : World σ) (ptrs : List ℕ) (point : ReplacePoint) : World σ :=
  { w with
    lb := w.lb.replaceDroppedAt (tagFrom w.fresh ptrs) point
    fresh := w.fresh + ptrs.length
    epoch := w.epoch + 1 }

/-- `w'` holds the whole old pool or the whole new one, with vectors of one length, and no
later dial or addition panics. -/
structure Replaced [BalanceStrategy σ] (env : Env) (w : World σ) (ptrs : List ℕ) (w' : World σ) :
    Prop where
  whole : (w'.lb.backends = w.lb.backends ∧ w'.lb.ids = w.lb.ids ∧ w'.lb.metrics = w.lb.metrics) ∨
    (w'.lb.backends = tagFrom w.fresh ptrs ∧ w'.lb.ids = List.replicate ptrs.length none ∧
      w'.lb.metrics = List.replicate ptrs.length default)
  ids : w'.lb.ids.length = w'.lb.backends.length
  metrics : w'.lb.metrics.length = w'.lb.backends.length
  noPanic : ∀ es : List (Event σ), (∀ e ∈ es, e.DialsOrAdds) → ∀ p,
    run (step env) w' es ≠ .error (.panic p)

/-- **A dropped `replace_backends` tears the pool.** Dropped at the first shutdown, it leaves
no backends and one slot of ids and metrics; after one backend is added, the second dial
indexes out of range. -/
theorem replace_torn :
    (ofSize 1 (Builtin.roundRobin ⟨0⟩)).lb.replaceAwaits none (.shutdown 0) = true ∧
      ((ofSize 1 (Builtin.roundRobin ⟨0⟩)).droppedReplace [7] (.shutdown 0)).lb.backends = [] ∧
      ((ofSize 1 (Builtin.roundRobin ⟨0⟩)).droppedReplace [7] (.shutdown 0)).lb.metrics.length = 1 ∧
      run (step Env.plain) ((ofSize 1 (Builtin.roundRobin ⟨0⟩)).droppedReplace [7] (.shutdown 0))
        [.addBackend 8, .start "a:1" none none 0, .start "a:1" none none 0] =
        .error (.panic (.indexOutOfBounds 1 1)) :=
  ⟨rfl, rfl, rfl, rfl⟩

/-- **Atomic, exactly at the strategy lock.** For every reachable pool, every non-empty new
pool and every await point of the call: the balancer left behind holds one whole pool and
stays safe if and only if the call was dropped at the strategy lock. -/
theorem replace_atomic_iff [BalanceStrategy σ] [LawfulStrategy σ] {env : Env} {w : World σ}
    (h : Reaches (step env) Initial w) (hd : w.dials = [])
    (hgood : LawfulStrategy.Good w.lb.strategy) {ptrs : List ℕ} (hne : ptrs ≠ [])
    (strategy : Option σ) {point : ReplacePoint}
    (hpoint : w.lb.replaceAwaits strategy point = true) :
    Replaced env w ptrs (w.droppedReplace ptrs point) ↔ point = .strategyLock := by
  have hpos : 0 < ptrs.length := List.length_pos_iff.mpr hne
  have hlen := (reaches_sync h).length
  constructor
  · intro hrep
    cases point with
    | shutdown i =>
        -- no backends, and as many metrics as old backends: at least one
        have hi : i < w.lb.backends.length := of_decide_eq_true hpoint
        have hzero : w.lb.metrics.length = 0 := hrep.metrics
        omega
    | metricsLock =>
        have hzero : (List.replicate (tagFrom w.fresh ptrs).length (none : Option String)).length =
          0 := hrep.ids
        rw [List.length_replicate, length_tagFrom] at hzero
        omega
    | strategyLock => rfl
  · rintro rfl
    have hids : (w.droppedReplace ptrs .strategyLock).lb.ids.length =
        (w.droppedReplace ptrs .strategyLock).lb.backends.length := List.length_replicate
    have hmetrics : (w.droppedReplace ptrs .strategyLock).lb.metrics.length =
        (w.droppedReplace ptrs .strategyLock).lb.backends.length := List.length_replicate
    have hsteady : Steady (w.droppedReplace ptrs .strategyLock) :=
      ⟨hids, hmetrics, hgood, fun d hmem => absurd (hd ▸ hmem : d ∈ []) List.not_mem_nil⟩
    refine ⟨.inr ⟨rfl, ?_, ?_⟩, hids, hmetrics, fun es hes p => run_no_panic hsteady ?_ p⟩
    · rw [← length_tagFrom w.fresh ptrs]
      rfl
    · rw [← length_tagFrom w.fresh ptrs]
      rfl
    · intro e he
      have hdial := hes e he
      cases e <;> trivial

/-- A call on two backends, dropped at the strategy lock. -/
theorem replaced_at_strategyLock :
    Replaced Env.plain (ofSize 2 (Builtin.roundRobin ⟨0⟩)) [7]
      ((ofSize 2 (Builtin.roundRobin ⟨0⟩)).droppedReplace [7] .strategyLock) :=
  (replace_atomic_iff ⟨_, [], initial_ofSize Nat.two_pos _, rfl⟩ rfl trivial (by decide)
    (some .random) rfl).mpr rfl

end World

end RotaLb
