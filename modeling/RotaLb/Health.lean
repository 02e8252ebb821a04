import Mathlib.Data.List.Infix
import RotaLb.Retry
import RotaLb.Scan
import RotaLb.StepSystem

/-!
# Active Health Checks

The loop of `HealthChecker`: at every tick each backend is dialed once, all together, and the
results go into two vectors of run lengths and into the published metrics. `is_healthy` reads
nothing but `recent_errors`.

The vectors are indexed alike and a result touches one index only, so the loop is one `Gauge` per
backend, each stepped by the results of its own checks (`tick_row`). The hysteresis is proved on
the gauge: between two failures the published `recent_errors` is what it was, while
`consecutive_failures` starts again from zero, so a failed check after a short run of successes
publishes a smaller number than before.

## Main results

* `Gauge.Counts.record`: **what the counters say about the history**.
* `Gauge.unhealthy_success_iff`, `Gauge.unhealthy_failure_iff`: when a check leaves an unhealthy
  backend unhealthy.
* `HealthLoop.hysteresis_iff`: **the runs in which an unhealthy backend stays so until enough
  checks succeed in a row**.
-/

namespace RotaLb

open Rust Scan StepSystem

/-- `HealthCheckConfig`. The interval and the address to dial are not read here. -/
structure HealthCheckConfig where
  timeout : Duration := .fromSecs 5
  unhealthyThreshold : UInt32 := 3
  healthyThreshold : UInt32 := 2

/-- `is_healthy`. -/
def isHealthy (metrics : TunnelMetrics) (unhealthyThreshold : UInt32) : Bool :=
  metrics.recentErrors < unhealthyThreshold

/-- The state of `run_loop` between two ticks, and the metrics it publishes to. -/
structure HealthLoop where
  consecutiveFailures : List UInt32
  consecutiveSuccesses : List UInt32
  metrics : List TunnelMetrics

/-- One tick: how the dial of each backend goes. -/
abbrev Tick := ℕ → DialFut

/-- The `dial_ok` of a check. -/
def HealthCheckConfig.dialOk (config : HealthCheckConfig) (f : DialFut) : Bool :=
  (f.awaited (some config.timeout)).any (·.1 = .connected)

namespace HealthLoop

/-- The state before the first tick. -/
def start (backends : ℕ) (metrics : List TunnelMetrics) : HealthLoop where
  consecutiveFailures := List.replicate backends 0
  consecutiveSuccesses := List.replicate backends 0
  metrics := metrics

/-- The body of the loop over the results. -/
def record (p : Profile) (config : HealthCheckConfig) (s : HealthLoop) (i : ℕ) (dialOk : Bool) :
    Except Panic HealthLoop :=
  match s.metrics[i]? with
  | none => .ok s
  | some _ =>
    if dialOk then do
      let n ← p.inc (← Vec.get s.consecutiveSuccesses i)
      let consecutiveSuccesses ← Vec.modify s.consecutiveSuccesses i fun _ => n
      let consecutiveFailures ← Vec.modify s.consecutiveFailures i fun _ => 0
      return { consecutiveFailures, consecutiveSuccesses
               metrics := s.metrics.modify i fun m =>
                 if config.healthyThreshold ≤ n then { m with recentErrors := 0 } else m }
    else do
      let n ← p.inc (← Vec.get s.consecutiveFailures i)
      let consecutiveFailures ← Vec.modify s.consecutiveFailures i fun _ => n
      let consecutiveSuccesses ← Vec.modify s.consecutiveSuccesses i fun _ => 0
      return { consecutiveFailures, consecutiveSuccesses
               metrics := s.metrics.modify i fun m =>
                 { m with recentErrors := n, totalErrors := saturatingInc64 m.totalErrors } }

/-- One tick of the loop. -/
def tick (p : Profile) (config : HealthCheckConfig) (s : HealthLoop) (results : Tick) :
    Except Panic HealthLoop :=
  forRangeM 0 s.consecutiveFailures.length s fun s i =>
    s.record p config i (config.dialOk (results i))

end HealthLoop

/-! ### One backend -/

/-- What the loop keeps of one backend. -/
structure Gauge where
  failures : UInt32
  successes : UInt32
  metrics : TunnelMetrics

namespace Gauge

variable {p : Profile} {config : HealthCheckConfig} {g g' : Gauge} {outcomes : List Bool}

/-- The result of one check. -/
def record (p : Profile) (config : HealthCheckConfig) (g : Gauge) : Bool → Except Panic Gauge
  | true => do
    let n ← p.inc g.successes
    return ⟨0, n, if config.healthyThreshold ≤ n then { g.metrics with recentErrors := 0 }
      else g.metrics⟩
  | false => do
    let n ← p.inc g.failures
    return ⟨n, 0, { g.metrics with
      recentErrors := n, totalErrors := saturatingInc64 g.metrics.totalErrors }⟩

/-- What the counters say about the checks so far: a running count of failures is the published
one, and as long as errors are published, the successes counted are the checks that
succeeded in a row at the end, and they are too few. -/
structure Counts (config : HealthCheckConfig) (outcomes : List Bool) (g : Gauge) : Prop where
  failures : g.failures ≠ 0 → g.metrics.recentErrors = g.failures
  few : g.metrics.recentErrors ≠ 0 → g.successes < config.healthyThreshold
  successes : g.metrics.recentErrors ≠ 0 →
    ∀ j, List.replicate j true <:+ outcomes ↔ j ≤ g.successes.toNat

/-- One more success. -/
theorem replicate_suffix_success (j : ℕ) :
    List.replicate (j + 1) true <:+ outcomes ++ [true] ↔ List.replicate j true <:+ outcomes := by
  rw [List.replicate_succ', List.suffix_concat_iff]
  simp

/-- No success in a row ends in a failure. -/
theorem not_replicate_suffix_failure (j : ℕ) :
    ¬ List.replicate (j + 1) true <:+ outcomes ++ [false] := by
  rw [List.replicate_succ', List.suffix_concat_iff]
  simp

/-- The counters before the first check. -/
theorem Counts.start (hh : 1 ≤ config.healthyThreshold) (m : TunnelMetrics) :
    Counts config [] ⟨0, 0, m⟩ where
  failures h := absurd rfl h
  few _ := by
    rw [UInt32.lt_iff_toNat_lt]
    exact UInt32.le_iff_toNat_le.mp hh
  successes _ j := by simp

/-- **A check keeps the counters faithful to the history.** -/
theorem Counts.record (h : Counts config outcomes g) (hh : 1 ≤ config.healthyThreshold)
    {ok : Bool} (hrec : g.record p config ok = .ok g') : Counts config (outcomes ++ [ok]) g' := by
  cases ok with
  | true =>
      obtain ⟨n, hn, hret⟩ := bind_eq_ok.mp hrec
      cases hret
      by_cases hle : config.healthyThreshold ≤ n
      · have hpub : (if config.healthyThreshold ≤ n then { g.metrics with recentErrors := 0 }
            else g.metrics).recentErrors = 0 := by rw [if_pos hle]
        exact ⟨fun h0 => absurd rfl h0, fun hne => absurd hpub hne, fun hne => absurd hpub hne⟩
      · -- errors are still published: the count was below the threshold and did not wrap
        have hpub : (if config.healthyThreshold ≤ n then { g.metrics with recentErrors := 0 }
            else g.metrics) = g.metrics := if_neg hle
        refine ⟨fun h0 => absurd rfl h0, fun _ => UInt32.not_le.mp hle, fun hne j => ?_⟩
        rw [hpub] at hne
        rcases inc_eq_ok.mp hn with ⟨hmax, rfl⟩ | ⟨hmax, -, -⟩
        · rw [toNat_add_one hmax]
          cases j with
          | zero => simp
          | succ j => rw [replicate_suffix_success, h.successes hne j, Nat.add_le_add_iff_right]
        · exact absurd hmax (ne_max_of_lt (h.few hne))
  | false =>
      obtain ⟨n, hn, hret⟩ := bind_eq_ok.mp hrec
      cases hret
      refine ⟨fun _ => rfl, fun _ => ?_, fun _ j => ?_⟩
      · rw [UInt32.lt_iff_toNat_lt]
        exact UInt32.le_iff_toNat_le.mp hh
      · cases j with
        | zero => simp
        | succ j => simp [not_replicate_suffix_failure]

/-- The backend is not considered healthy for routing. -/
def Unhealthy (config : HealthCheckConfig) (g : Gauge) : Prop :=
  isHealthy g.metrics config.unhealthyThreshold = false

theorem unhealthy_iff :
    g.Unhealthy config ↔ config.unhealthyThreshold ≤ g.metrics.recentErrors := by
  rw [Unhealthy, isHealthy, decide_eq_false_iff_not, UInt32.not_lt]

/-- An unhealthy backend has published errors. -/
theorem Unhealthy.ne_zero (h : g.Unhealthy config) (hu : 1 ≤ config.unhealthyThreshold) :
    g.metrics.recentErrors ≠ 0 := by
  intro h0
  have hle := UInt32.le_trans hu (unhealthy_iff.mp h)
  rw [h0] at hle
  exact absurd hle (by decide)

/-- Enough successes in a row leave nothing published. -/
theorem Counts.of_completed (h : Counts config outcomes g)
    (hdone : List.replicate config.healthyThreshold.toNat true <:+ outcomes) :
    g.metrics.recentErrors = 0 := by
  by_contra hne
  have hle := (h.successes hne _).mp hdone
  have hlt := UInt32.lt_iff_toNat_lt.mp (h.few hne)
  omega

/-- **A successful check leaves an unhealthy backend unhealthy** exactly when it does not complete
enough successes in a row. -/
theorem unhealthy_success_iff (h : Counts config outcomes g) (hu : 1 ≤ config.unhealthyThreshold)
    (hh : 1 ≤ config.healthyThreshold) (hg : g.Unhealthy config)
    (hrec : g.record p config true = .ok g') :
    g'.Unhealthy config ↔
      ¬ List.replicate config.healthyThreshold.toNat true <:+ outcomes ++ [true] := by
  have h' := h.record hh hrec
  refine ⟨fun hg' hdone => hg'.ne_zero hu (h'.of_completed hdone), fun hnot => ?_⟩
  obtain ⟨n, hn, hret⟩ := bind_eq_ok.mp hrec
  cases hret
  by_cases hle : config.healthyThreshold ≤ n
  · -- the count reached the threshold, and it counts the successes in a row
    refine absurd ?_ hnot
    rcases inc_eq_ok.mp hn with ⟨hmax, rfl⟩ | ⟨hmax, -, -⟩
    · rw [UInt32.le_iff_toNat_le, toNat_add_one hmax] at hle
      obtain ⟨j, hj⟩ := Nat.exists_eq_add_of_le' (UInt32.le_iff_toNat_le.mp hh)
      rw [UInt32.toNat_one] at hj
      rw [hj, replicate_suffix_success, h.successes (hg.ne_zero hu)]
      omega
    · exact absurd hmax (ne_max_of_lt (h.few (hg.ne_zero hu)))
  · simpa [Unhealthy, hle] using hg

/-- The count of failures goes on from a number that is published, and does not wrap. -/
def FailureCounted (config : HealthCheckConfig) (g : Gauge) : Prop :=
  (g.failures ≠ 0 ∨ config.unhealthyThreshold = 1) ∧ g.failures ≠ u32Max

/-- **A failed check leaves an unhealthy backend unhealthy** exactly when the failures before it are
still counted. -/
theorem unhealthy_failure_iff (h : Counts config outcomes g) (hu : 1 ≤ config.unhealthyThreshold)
    (hg : g.Unhealthy config) (hrec : g.record p config false = .ok g') :
    g'.Unhealthy config ↔ g.FailureCounted config := by
  obtain ⟨n, hn, hret⟩ := bind_eq_ok.mp hrec
  cases hret
  rw [unhealthy_iff, FailureCounted, u32Max]
  have hu' := UInt32.le_iff_toNat_le.mp hu
  rw [UInt32.le_iff_toNat_le]
  rcases inc_eq_ok.mp hn with ⟨hmax, rfl⟩ | ⟨hmax, -, rfl⟩
  · rw [toNat_add_one hmax, and_iff_left hmax]
    by_cases h0 : g.failures = 0
    · rw [h0, or_iff_right (fun hne => hne rfl), ← UInt32.toNat_inj]
      simp only [UInt32.toNat_zero, UInt32.toNat_one] at hu' ⊢
      omega
    · have hle := UInt32.le_iff_toNat_le.mp (unhealthy_iff.mp hg)
      rw [h.failures h0] at hle
      simp only [ne_eq, h0, not_false_eq_true, true_or, iff_true]
      omega
  · simp only [UInt32.toNat_zero, UInt32.toNat_one] at hu' ⊢
    simp only [hmax, ne_eq, not_true_eq_false, and_false, iff_false]
    omega

end Gauge

/-! ### The loop, backend by backend -/

namespace HealthLoop

variable {p : Profile} {config : HealthCheckConfig} {s s' : HealthLoop} {i j : ℕ} {g : Gauge}

/-- What the vectors hold at an index. -/
structure HasRow (s : HealthLoop) (i : ℕ) (g : Gauge) : Prop where
  failures : s.consecutiveFailures[i]? = some g.failures
  successes : s.consecutiveSuccesses[i]? = some g.successes
  metrics : s.metrics[i]? = some g.metrics

/-- The vectors with another row at an index. -/
def put (s : HealthLoop) (i : ℕ) (g : Gauge) : HealthLoop where
  consecutiveFailures := s.consecutiveFailures.set i g.failures
  consecutiveSuccesses := s.consecutiveSuccesses.set i g.successes
  metrics := s.metrics.set i g.metrics

/-- A row that is put in place of another is there. -/
theorem HasRow.put (h : s.HasRow i g) (g' : Gauge) : (s.put i g').HasRow i g' := by
  have hlen {α : Type} {l : List α} {a : α} (ha : l[i]? = some a) : i < l.length :=
    (List.getElem?_eq_some_iff.mp ha).1
  exact ⟨List.getElem?_set_self (hlen h.failures), List.getElem?_set_self (hlen h.successes),
    List.getElem?_set_self (hlen h.metrics)⟩

/-- The other rows stay. -/
theorem HasRow.put_ne (h : s.HasRow i g) (hne : j ≠ i) (g' : Gauge) : (s.put j g').HasRow i g := by
  constructor
  · rw [← h.failures]
    exact List.getElem?_set_ne hne
  · rw [← h.successes]
    exact List.getElem?_set_ne hne
  · rw [← h.metrics]
    exact List.getElem?_set_ne hne

/-- **The body of the loop** records the result in one row. -/
theorem HasRow.record_eq (h : s.HasRow i g) (ok : Bool) :
    s.record p config i ok = do
      let g' ← g.record p config ok
      return s.put i g' := by
  have hmod (f : TunnelMetrics → TunnelMetrics) :
      s.metrics.modify i f = s.metrics.set i (f g.metrics) := by
    rw [List.modify_eq_set_getElem?, h.metrics]
    rfl
  have hset {l : List UInt32} {a : UInt32} (ha : l[i]? = some a) (c : UInt32) :
      Vec.modify l i (fun _ => c) = .ok (l.set i c) :=
    Vec.modify_eq_ok.mpr ⟨(List.getElem?_eq_some_iff.mp ha).1, List.set_eq_modify ..⟩
  simp only [HealthLoop.record, h.metrics, Vec.get_eq_ok.mpr h.successes,
    Vec.get_eq_ok.mpr h.failures, hset h.successes, hset h.failures, hmod]
  cases ok with
  | true =>
      rw [Gauge.record, bind_assoc]
      rfl
  | false =>
      rw [Gauge.record, bind_assoc]
      rfl

/-- What the body of the loop did: nothing without metrics, and otherwise there is a row. -/
theorem record_cases {ok : Bool} (hrec : s.record p config j ok = .ok s') :
    (s.metrics[j]? = none ∧ s' = s) ∨
      ∃ g g', s.HasRow j g ∧ g.record p config ok = .ok g' ∧ s' = s.put j g' := by
  cases hm : s.metrics[j]? with
  | none =>
      rw [record, hm] at hrec
      cases hrec
      exact .inl ⟨rfl, rfl⟩
  | some m =>
      -- one counter is read and the other one written, so both have a place for `j`
      obtain ⟨g, hrow⟩ : ∃ g, s.HasRow j g := by
        rw [record, hm] at hrec
        cases ok with
        | true =>
            obtain ⟨k, hk, hrec⟩ := bind_eq_ok.mp hrec
            obtain ⟨n, -, hrec⟩ := bind_eq_ok.mp hrec
            obtain ⟨ss, -, hrec⟩ := bind_eq_ok.mp hrec
            obtain ⟨fs, hfs, -⟩ := bind_eq_ok.mp hrec
            have hlt := (Vec.modify_eq_ok.mp hfs).1
            exact ⟨⟨_, k, m⟩, List.getElem?_eq_getElem hlt, Vec.get_eq_ok.mp hk, hm⟩
        | false =>
            obtain ⟨k, hk, hrec⟩ := bind_eq_ok.mp hrec
            obtain ⟨n, -, hrec⟩ := bind_eq_ok.mp hrec
            obtain ⟨fs, -, hrec⟩ := bind_eq_ok.mp hrec
            obtain ⟨ss, hss, -⟩ := bind_eq_ok.mp hrec
            have hlt := (Vec.modify_eq_ok.mp hss).1
            exact ⟨⟨k, _, m⟩, Vec.get_eq_ok.mp hk, List.getElem?_eq_getElem hlt, hm⟩
      rw [hrow.record_eq] at hrec
      obtain ⟨g', hg', hret⟩ := bind_eq_ok.mp hrec
      cases hret
      exact .inr ⟨g, g', hrow, hg', rfl⟩

/-- A result of the backend itself goes into its row. -/
theorem HasRow.record {ok : Bool} (h : s.HasRow i g) (hrec : s.record p config i ok = .ok s') :
    ∃ g', g.record p config ok = .ok g' ∧ s'.HasRow i g' := by
  rw [h.record_eq] at hrec
  obtain ⟨g', hg', hret⟩ := bind_eq_ok.mp hrec
  cases hret
  exact ⟨g', hg', h.put g'⟩

/-- A result of another backend leaves the row. -/
theorem HasRow.record_ne {ok : Bool} (h : s.HasRow i g) (hne : j ≠ i)
    (hrec : s.record p config j ok = .ok s') : s'.HasRow i g := by
  rcases record_cases hrec with ⟨-, rfl⟩ | ⟨-, g', -, -, rfl⟩
  · exact h
  · exact h.put_ne hne g'

/-- **A tick records in every row the result of its own check.** -/
theorem tick_row {results : Tick} (h : s.HasRow i g) (htick : s.tick p config results = .ok s') :
    ∃ g', g.record p config (config.dialOk (results i)) = .ok g' ∧ s'.HasRow i g' := by
  have hi : i < s.consecutiveFailures.length := (List.getElem?_eq_some_iff.mp h.failures).1
  -- the row at `i` is as before until the loop gets there, and recorded from then on
  have hlast := forRangeM_invariant (P := fun k t => (k ≤ i ∧ t.HasRow i g) ∨
    (i < k ∧ ∃ g', g.record p config (config.dialOk (results i)) = .ok g' ∧ t.HasRow i g'))
    (.inl ⟨Nat.zero_le i, h⟩) (fun j t t' _ _ hP hrec => ?_) htick
  · rcases hlast with ⟨hle, -⟩ | ⟨-, hrow⟩
    · omega
    · exact hrow
  · rcases hP with ⟨hle, hrow⟩ | ⟨hlt, g', hg', hrow⟩
    · by_cases hji : j = i
      · subst hji
        exact .inr ⟨Nat.lt_succ_self j, hrow.record hrec⟩
      · exact .inl ⟨by omega, hrow.record_ne hji hrec⟩
    · exact .inr ⟨by omega, g', hg', hrow.record_ne (by omega) hrec⟩

/-- The rows before the first tick. -/
theorem hasRow_start {n : ℕ} {metrics : List TunnelMetrics} (hi : i < n) {m : TunnelMetrics}
    (hm : metrics[i]? = some m) : (start n metrics).HasRow i ⟨0, 0, m⟩ where
  failures := by simp [start, hi]
  successes := by simp [start, hi]
  metrics := hm

/-! ### Hysteresis -/

/-- The backend is not considered healthy for routing. -/
def unhealthy (config : HealthCheckConfig) (s : HealthLoop) (i : ℕ) : Bool :=
  s.metrics[i]?.any fun m => !isHealthy m config.unhealthyThreshold

/-- The ticks end with as many successful checks of the backend as it takes to be healthy. -/
def Completed (config : HealthCheckConfig) (i : ℕ) (ticks : List Tick) : Prop :=
  List.replicate config.healthyThreshold.toNat true <:+
    ticks.map fun results => config.dialOk (results i)

/-- The failures before the next one are still counted: the last check failed, or one failure is
enough to be unhealthy, and the count does not wrap. -/
def FailureCounted (config : HealthCheckConfig) (s : HealthLoop) (i : ℕ) : Prop :=
  (s.consecutiveFailures[i]? ≠ some 0 ∨ config.unhealthyThreshold = 1) ∧
    s.consecutiveFailures[i]? ≠ some u32Max

instance (config : HealthCheckConfig) (i : ℕ) (ticks : List Tick) :
    Decidable (Completed config i ticks) :=
  inferInstanceAs (Decidable (_ <:+ _))

instance (config : HealthCheckConfig) (s : HealthLoop) (i : ℕ) :
    Decidable (s.FailureCounted config i) :=
  inferInstanceAs (Decidable (_ ∧ _))

/-- The row of a backend counts its checks. -/
def Tracked (config : HealthCheckConfig) (i : ℕ) (ticks : List Tick) (s : HealthLoop) : Prop :=
  ∃ g, s.HasRow i g ∧ g.Counts config (ticks.map fun results => config.dialOk (results i))

theorem HasRow.unhealthy_iff (h : s.HasRow i g) :
    s.unhealthy config i = true ↔ g.Unhealthy config := by
  simp [unhealthy, h.metrics, Gauge.Unhealthy]

theorem HasRow.failureCounted_iff (h : s.HasRow i g) :
    s.FailureCounted config i ↔ g.FailureCounted config := by
  simp [FailureCounted, h.failures, Gauge.FailureCounted]

variable {ticks : List Tick}

/-- A run counts the checks of every backend. -/
theorem run_tracked (hh : 1 ≤ config.healthyThreshold) (hs : Tracked config i [] s)
    (hrun : run (tick p config) s ticks = .ok s') : Tracked config i ticks s' := by
  refine run_history (I := Tracked config i) hs (fun es t r t' ht htick => ?_) hrun
  obtain ⟨g, hrow, hcounts⟩ := ht
  obtain ⟨g', hrec, hrow'⟩ := tick_row hrow htick
  refine ⟨g', hrow', ?_⟩
  rw [List.map_append, List.map_singleton]
  exact hcounts.record hh hrec

/-- **One tick from an unhealthy backend.** -/
theorem Tracked.unhealthy_iff {results : Tick} (h : Tracked config i ticks s)
    (hu : 1 ≤ config.unhealthyThreshold) (hh : 1 ≤ config.healthyThreshold)
    (hs : s.unhealthy config i) (htick : s.tick p config results = .ok s') :
    s'.unhealthy config i ↔
      if config.dialOk (results i) then ¬ Completed config i (ticks ++ [results])
      else s.FailureCounted config i := by
  obtain ⟨g, hrow, hcounts⟩ := h
  obtain ⟨g', hrec, hrow'⟩ := tick_row hrow htick
  rw [hrow.unhealthy_iff] at hs
  rw [hrow'.unhealthy_iff, Completed, List.map_append, List.map_singleton]
  cases hok : config.dialOk (results i) with
  | true =>
      rw [hok] at hrec
      rw [if_pos rfl]
      exact Gauge.unhealthy_success_iff hcounts hu hh hs hrec
  | false =>
      rw [hok] at hrec
      rw [if_neg Bool.false_ne_true, hrow.failureCounted_iff]
      exact Gauge.unhealthy_failure_iff hcounts hu hs hrec

/-- A failed check completes nothing. -/
theorem not_completed_of_failed {results : Tick} (hh : 1 ≤ config.healthyThreshold)
    (hok : config.dialOk (results i) = false) : ¬ Completed config i (ticks ++ [results]) := by
  obtain ⟨j, hj⟩ := Nat.exists_eq_add_of_le' (UInt32.le_iff_toNat_le.mp hh)
  rw [UInt32.toNat_one] at hj
  rw [Completed, List.map_append, List.map_singleton, hok, hj]
  exact Gauge.not_replicate_suffix_failure j

/-- **Hysteresis.** In every run of the loop, for every backend and its metrics:

* the backend, once unhealthy after a tick, stays unhealthy after every later tick until one that
  completes `healthy_threshold` successful checks in a row, if and only if from the second tick
  on every failed check of it while it is unhealthy follows a failure that is still counted;
* a tick that completes so many leaves the backend healthy. -/
theorem hysteresis_iff (hu : 1 ≤ config.unhealthyThreshold) (hh : 1 ≤ config.healthyThreshold)
    {n : ℕ} {metrics : List TunnelMetrics} (hn : i < n) (hm : i < metrics.length)
    (hrun : run (tick p config) (start n metrics) ticks = .ok s') :
    ((∀ t₀ t s₀ s, 1 ≤ t₀ → t₀ ≤ t → t ≤ ticks.length →
        run (tick p config) (start n metrics) (ticks.take t₀) = .ok s₀ →
        run (tick p config) (start n metrics) (ticks.take t) = .ok s →
        s₀.unhealthy config i →
        (∀ t', t₀ < t' → t' ≤ t → ¬ Completed config i (ticks.take t')) →
        s.unhealthy config i) ↔
      ∀ t results s, 1 ≤ t → ticks[t]? = some results →
        run (tick p config) (start n metrics) (ticks.take t) = .ok s →
        s.unhealthy config i → config.dialOk (results i) = false → s.FailureCounted config i) ∧
    ∀ t s, run (tick p config) (start n metrics) (ticks.take t) = .ok s →
      Completed config i (ticks.take t) → ¬ s.unhealthy config i := by
  have hstart : Tracked config i [] (start n metrics) :=
    ⟨_, hasRow_start hn (List.getElem?_eq_getElem hm), .start hh _⟩
  have htracked (t : ℕ) (s : HealthLoop)
      (h : run (tick p config) (start n metrics) (ticks.take t) = .ok s) :
      Tracked config i (ticks.take t) s := run_tracked hh hstart h
  refine ⟨⟨fun hstays t results s ht hr hs hun hfail => ?_, fun hcond => ?_⟩,
    fun t s hs hdone hun => ?_⟩
  · -- the next tick completes nothing, so it keeps the backend unhealthy
    obtain ⟨s₁, hs₁⟩ := exists_run_take hrun (t + 1)
    obtain ⟨s₀, hs₀, htick⟩ := (run_take_succ hr).mp hs₁
    cases hs.symm.trans hs₀
    have htake : ticks.take (t + 1) = ticks.take t ++ [results] := by
      rw [List.take_add_one, hr, Option.toList_some]
    have hlt : t < ticks.length := (List.getElem?_eq_some_iff.mp hr).1
    have hun₁ := hstays t (t + 1) s s₁ ht (Nat.le_succ t) hlt hs hs₁ hun fun t' h1 h2 => by
      rw [show t' = t + 1 by omega, htake]
      exact not_completed_of_failed hh hfail
    rw [(htracked t s hs).unhealthy_iff hu hh hun htick, hfail] at hun₁
    exact hun₁
  · intro t₀ t s₀ s ht₀ hle
    induction t, hle using Nat.le_induction generalizing s with
    | base =>
        intro _ hs₀ hs hun _
        cases hs₀.symm.trans hs
        exact hun
    | succ t hle ih =>
        intro hlen hs₀ hs hun hnone
        have hr : ticks[t]? = some ticks[t] := List.getElem?_eq_getElem (by omega)
        obtain ⟨s₁, hs₁, htick⟩ := (run_take_succ hr).mp hs
        have hun₁ := ih s₁ (by omega) hs₀ hs₁ hun fun t' h1 h2 => hnone t' h1 (by omega)
        rw [(htracked t s₁ hs₁).unhealthy_iff hu hh hun₁ htick]
        split
        · have := hnone (t + 1) (by omega) le_rfl
          rwa [List.take_add_one, hr, Option.toList_some] at this
        · exact hcond t _ s₁ (by omega) hr hs₁ hun₁ (Bool.eq_false_iff.mpr ‹_›)
  · obtain ⟨g, hrow, hcounts⟩ := htracked t s hs
    exact (hrow.unhealthy_iff.mp hun).ne_zero hu (hcounts.of_completed hdone)

/-- Ticks at which the checks of all backends end alike, at once. -/
def checks (outcomes : List Bool) : List Tick :=
  outcomes.map fun ok _ => ⟨some (.fromSecs 0), if ok then .ok () else .error (.backend "refused")⟩

/-- Four failures in a row, then two successes: unhealthy until the second one. -/
theorem hysteresis_fourFailures :
    ∃ s', run (tick .release {}) (start 1 [default])
        (checks [false, false, false, false, true, true]) = .ok s' ∧
      ¬ s'.unhealthy {} 0 ∧
      ∀ t s, 3 ≤ t → t ≤ 5 → run (tick .release {}) (start 1 [default])
        ((checks [false, false, false, false, true, true]).take t) = .ok s → s.unhealthy {} 0 := by
  set ticks := checks [false, false, false, false, true, true]
  have hends : ends (tick .release {}) (fun _ => true) (start 1 [default]) ticks = true := by decide
  have hends₃ : ends (tick .release {}) (·.unhealthy {} 0) (start 1 [default]) (ticks.take 3) =
      true := by decide
  have halong : Along (tick .release {}) (fun s results => s.unhealthy {} 0 →
      HealthCheckConfig.dialOk {} (results 0) = false → s.FailureCounted {} 0)
      (start 1 [default]) ticks := by decide
  obtain ⟨s', hrun, -⟩ := exists_run_of_ends hends
  obtain ⟨s₃, hs₃, hun₃⟩ := exists_run_of_ends hends₃
  have hm : 0 < [(default : TunnelMetrics)].length := Nat.one_pos
  obtain ⟨hiff, hdone⟩ := hysteresis_iff (by decide) (by decide) Nat.one_pos hm hrun
  refine ⟨s', hrun, hdone 6 s' hrun (by decide), fun t s h3 h5 hs => ?_⟩
  have hlen : t ≤ ticks.length := h5.trans (by decide)
  refine hiff.mpr (fun t results s _ => along_iff_take.mp halong t results s) 3 t s₃ s (by decide)
    h3 hlen hs₃ hs hun₃ fun t' h1 h2 => ?_
  obtain rfl | rfl : t' = 4 ∨ t' = 5 := by omega
  · decide
  · decide

/-- Three failures, one success, one failure: the last failure is published as the first one, and
marks the backend healthy. -/
theorem failure_marks_healthy :
    ∃ s₃ s₅, run (tick .release {}) (start 1 [default])
        ((checks [false, false, false, true, false]).take 3) = .ok s₃ ∧
      run (tick .release {}) (start 1 [default])
        ((checks [false, false, false, true, false]).take 5) = .ok s₅ ∧
      s₃.unhealthy {} 0 ∧
      (∀ t', 3 < t' → t' ≤ 5 →
        ¬ Completed {} 0 ((checks [false, false, false, true, false]).take t')) ∧
      ¬ s₅.unhealthy {} 0 := by
  have hends₃ : ends (tick .release {}) (·.unhealthy {} 0) (start 1 [default])
      ((checks [false, false, false, true, false]).take 3) = true := by decide
  have hends₅ : ends (tick .release {}) (!·.unhealthy {} 0) (start 1 [default])
      ((checks [false, false, false, true, false]).take 5) = true := by decide
  obtain ⟨s₃, hs₃, hun₃⟩ := exists_run_of_ends hends₃
  obtain ⟨s₅, hs₅, hun₅⟩ := exists_run_of_ends hends₅
  refine ⟨s₃, s₅, hs₃, hs₅, hun₃, fun t' h1 h2 => ?_, by simpa using hun₅⟩
  obtain rfl | rfl : t' = 4 ∨ t' = 5 := by omega
  · decide
  · decide

end HealthLoop

end RotaLb
