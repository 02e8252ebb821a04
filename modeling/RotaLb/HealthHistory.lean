import Mathlib.Data.List.DropRight
import RotaLb.Health

/-!
# What the Health Checks Publish

The metrics that the loop of `HealthChecker` publishes, as a function of the outcomes of the
checks. A backend's counters are the lengths of the runs at the end of its outcomes, so what is
published of a backend depends on its own outcomes alone (`published`), and the loop computes it
for all backends at once, also when there are fewer metrics than backends or more.

## Main results

* `Gauge.record_after`: one more check of one backend.
* `HealthLoop.tick_rows`: one tick, for all backends.
* `HealthLoop.closed_form`: **the published metrics in closed form**, for every sequence of
  ticks.
-/

namespace RotaLb

open Rust Scan StepSystem

/-! ### Runs at the end of the outcomes -/

/-- The length of the run of equal outcomes at the end. -/
def trailing (ok : Bool) (outcomes : List Bool) : ℕ := (outcomes.rtakeWhile (· == ok)).length

/-- The outcomes before the run of successes at the end. -/
def beforeSuccesses (outcomes : List Bool) : List Bool := outcomes.rdropWhile (· == true)

section Trailing

variable {outcomes : List Bool}

theorem trailing_concat (ok : Bool) :
    trailing ok (outcomes ++ [ok]) = trailing ok outcomes + 1 := by
  rw [trailing, List.rtakeWhile_concat_pos (· == ok) _ _ (beq_self_eq_true ok),
    List.length_append]
  rfl

theorem trailing_concat_ne {ok ok' : Bool} (h : ok' ≠ ok) :
    trailing ok (outcomes ++ [ok']) = 0 := by
  rw [trailing, List.rtakeWhile_concat_neg _ _ _ (by simpa using h)]
  rfl

theorem trailing_le (ok : Bool) : trailing ok outcomes ≤ outcomes.length :=
  List.rtakeWhile_suffix _ _ |>.length_le

theorem beforeSuccesses_true : beforeSuccesses (outcomes ++ [true]) = beforeSuccesses outcomes :=
  List.rdropWhile_concat_pos _ _ _ rfl

theorem beforeSuccesses_false : beforeSuccesses (outcomes ++ [false]) = outcomes ++ [false] :=
  List.rdropWhile_concat_neg _ _ _ (by simp)

/-- Outcomes that end in a failure have no successes to leave off. -/
theorem beforeSuccesses_of_trailing (h : 0 < trailing false outcomes) :
    beforeSuccesses outcomes = outcomes ∧ outcomes ≠ [] := by
  cases outcomes using List.reverseRecOn with
  | nil => exact absurd h (Nat.lt_irrefl 0)
  | append_singleton outcomes ok =>
      cases ok with
      | true => rw [trailing_concat_ne (by decide)] at h; exact absurd h (Nat.lt_irrefl 0)
      | false => exact ⟨beforeSuccesses_false, by simp⟩

end Trailing

/-! ### One backend -/

/-- `recent_errors` after these outcomes, `initial` before the first of them: the failures in a
row at the end; 0 after enough successes in a row; with too few of them what it was before them,
that is the failures in a row there, or `initial` if nothing was before. -/
def recentAfter (healthyThreshold initial : UInt32) (outcomes : List Bool) : UInt32 :=
  if 0 < trailing false outcomes then UInt32.ofNat (trailing false outcomes)
  else if 0 < trailing true outcomes ∧ healthyThreshold.toNat ≤ trailing true outcomes then 0
  else if beforeSuccesses outcomes = [] then initial
  else UInt32.ofNat (trailing false (beforeSuccesses outcomes))

/-- The metrics published after these outcomes: `total_errors` counts the failures, saturating. -/
def published (config : HealthCheckConfig) (m : TunnelMetrics) (outcomes : List Bool) :
    TunnelMetrics :=
  { m with
    totalErrors := UInt64.ofNat (min (m.totalErrors.toNat + outcomes.count false) (2 ^ 64 - 1))
    recentErrors := recentAfter config.healthyThreshold m.recentErrors outcomes }

/-- A failure publishes the failures in a row. -/
theorem recentAfter_false (h initial : UInt32) (outcomes : List Bool) :
    recentAfter h initial (outcomes ++ [false]) = UInt32.ofNat (trailing false outcomes + 1) := by
  rw [recentAfter, trailing_concat, if_pos (Nat.succ_pos _)]

/-- A success publishes 0 if it is enough, and nothing otherwise. -/
theorem recentAfter_true (h initial : UInt32) (outcomes : List Bool) :
    recentAfter h initial (outcomes ++ [true]) =
      if h.toNat ≤ trailing true outcomes + 1 then 0 else recentAfter h initial outcomes := by
  have hzero : trailing false (outcomes ++ [true]) = 0 := trailing_concat_ne (by decide)
  rw [recentAfter, hzero, if_neg (Nat.lt_irrefl 0), trailing_concat, beforeSuccesses_true]
  simp only [Nat.succ_pos, true_and]
  split
  · rfl
  · rename_i hfew
    -- what was published before the successes at the end is still published
    rw [recentAfter]
    by_cases hfail : 0 < trailing false outcomes
    · obtain ⟨hbefore, hne⟩ := beforeSuccesses_of_trailing hfail
      rw [if_pos hfail, hbefore, if_neg hne]
    · have hnot : ¬ (0 < trailing true outcomes ∧ h.toNat ≤ trailing true outcomes) := by omega
      rw [if_neg hfail, if_neg hnot]

namespace Gauge

variable {p : Profile} {config : HealthCheckConfig} {m : TunnelMetrics} {outcomes : List Bool}

/-- The row of a backend after these outcomes. -/
def after (config : HealthCheckConfig) (m : TunnelMetrics) (outcomes : List Bool) : Gauge where
  failures := UInt32.ofNat (trailing false outcomes)
  successes := UInt32.ofNat (trailing true outcomes)
  metrics := published config m outcomes

/-- Before the first check. -/
theorem after_nil : after config m [] = ⟨0, 0, m⟩ := by
  have hle : min m.totalErrors.toNat (2 ^ 64 - 1) = m.totalErrors.toNat :=
    Nat.min_eq_left (Nat.le_sub_one_of_lt m.totalErrors.toNat_lt)
  have htotal : UInt64.ofNat (min (m.totalErrors.toNat + List.count false []) (2 ^ 64 - 1)) =
      m.totalErrors := by
    rw [List.count_nil, Nat.add_zero, hle, UInt64.ofNat_toNat]
  rw [after, published, htotal]
  rfl

/-- After one more failure. -/
theorem after_false : after config m (outcomes ++ [false]) =
    ⟨UInt32.ofNat (trailing false outcomes + 1), 0, { published config m outcomes with
      recentErrors := UInt32.ofNat (trailing false outcomes + 1)
      totalErrors := saturatingInc64 (published config m outcomes).totalErrors }⟩ := by
  have hzero : trailing true (outcomes ++ [false]) = 0 := trailing_concat_ne (by decide)
  have htotal : saturatingInc64 (published config m outcomes).totalErrors =
      (published config m (outcomes ++ [false])).totalErrors := by
    rw [published, saturatingInc64_ofNat_min, published, List.count_append]
    rfl
  rw [htotal, after, hzero, trailing_concat, published, recentAfter_false]
  rfl

/-- After one more success. -/
theorem after_true : after config m (outcomes ++ [true]) =
    ⟨0, UInt32.ofNat (trailing true outcomes + 1),
      if config.healthyThreshold.toNat ≤ trailing true outcomes + 1 then
        { published config m outcomes with recentErrors := 0 }
      else published config m outcomes⟩ := by
  have hzero : trailing false (outcomes ++ [true]) = 0 := trailing_concat_ne (by decide)
  have hcount : (outcomes ++ [true]).count false = outcomes.count false := by simp
  rw [after, hzero, trailing_concat, published, recentAfter_true, hcount]
  split <;> rfl

/-- **One more check.** The counters do not wrap before `2 ^ 32` checks. -/
theorem record_after (hlen : outcomes.length + 1 < 2 ^ 32) (ok : Bool) :
    (after config m outcomes).record p config ok = .ok (after config m (outcomes ++ [ok])) := by
  have hval (ok : Bool) : trailing ok outcomes + 1 < 2 ^ 32 := by
    have hle : trailing ok outcomes ≤ outcomes.length := trailing_le ok
    omega
  have hinc (ok : Bool) : p.inc (UInt32.ofNat (trailing ok outcomes)) =
      .ok (UInt32.ofNat (trailing ok outcomes + 1)) := by
    refine inc_eq_ok.mpr (.inl ⟨ne_max_of_toNat_lt ?_, UInt32.ofNat_add _ _⟩)
    rw [UInt32.toNat_ofNat_of_lt' (Nat.lt_of_succ_lt (hval ok))]
    exact hval ok
  cases ok with
  | true =>
      have hthreshold : config.healthyThreshold ≤ UInt32.ofNat (trailing true outcomes + 1) ↔
          config.healthyThreshold.toNat ≤ trailing true outcomes + 1 := by
        rw [UInt32.le_iff_toNat_le, UInt32.toNat_ofNat_of_lt' (hval true)]
      refine bind_eq_ok.mpr ⟨_, hinc true, ?_⟩
      rw [after_true]
      simp only [hthreshold]
      rfl
  | false =>
      rw [after_false]
      exact bind_eq_ok.mpr ⟨_, hinc false, rfl⟩

end Gauge

/-! ### The loop -/

namespace HealthLoop

variable {p : Profile} {config : HealthCheckConfig} {n : ℕ} {gauge gauge' : ℕ → Gauge}
  {metrics : List TunnelMetrics} {s : HealthLoop}

/-- There are `n` backends, those with metrics have the rows of `gauge`, and the metrics without
a backend are the given ones. -/
structure Rows (n : ℕ) (gauge : ℕ → Gauge) (metrics : List TunnelMetrics) (s : HealthLoop) :
    Prop where
  backends : s.consecutiveFailures.length = n
  length : s.metrics.length = metrics.length
  rows : ∀ i < n, i < metrics.length → s.HasRow i (gauge i)
  rest : ∀ i, n ≤ i → s.metrics[i]? = metrics[i]?

/-- One check of the tick: its row, if it has metrics, is the only one that changes. -/
theorem Rows.record {k : ℕ} {g : Gauge} {ok : Bool} (h : Rows n gauge metrics s) (hk : k < n)
    (hg : (gauge k).record p config ok = .ok g) :
    ∃ s', s.record p config k ok = .ok s' ∧ Rows n (Function.update gauge k g) metrics s' := by
  by_cases hm : k < metrics.length
  · have hrow := h.rows k hk hm
    have hrec : s.record p config k ok = .ok (s.put k g) := by
      rw [hrow.record_eq]
      exact bind_eq_ok.mpr ⟨g, hg, rfl⟩
    refine ⟨_, hrec, ?_, ?_, fun i hi hm => ?_, fun i hi => ?_⟩
    · exact List.length_set.trans h.backends
    · exact List.length_set.trans h.length
    · by_cases hik : i = k
      · subst hik
        rw [Function.update_self]
        exact hrow.put g
      · rw [Function.update_of_ne hik]
        exact (h.rows i hi hm).put_ne (Ne.symm hik) g
    · rw [← h.rest i hi]
      exact List.getElem?_set_ne (by omega)
  · -- a backend without metrics is passed over
    have hnone : s.metrics[k]? = none := by
      rw [List.getElem?_eq_none_iff, h.length]
      omega
    refine ⟨s, by rw [HealthLoop.record, hnone], h.backends, h.length, fun i hi hm' => ?_, h.rest⟩
    have hik : i ≠ k := fun hik => hm (hik ▸ hm')
    rw [Function.update_of_ne hik]
    exact h.rows i hi hm'

/-- **One tick** records in every row the result of its own check. -/
theorem tick_rows {results : Tick} (h : Rows n gauge metrics s)
    (hrec : ∀ i < n, (gauge i).record p config (config.dialOk (results i)) = .ok (gauge' i)) :
    ∃ s', s.tick p config results = .ok s' ∧ Rows n gauge' metrics s' := by
  -- the rows below `k` are recorded
  obtain ⟨s', htick, hrows⟩ : ∃ s', s.tick p config results = .ok s' ∧
      Rows n (fun i => if i < 0 + n then gauge' i else gauge i) metrics s' := by
    rw [tick, h.backends]
    refine forRangeM_rule
      (P := fun k => Rows n (fun i => if i < k then gauge' i else gauge i) metrics)
      (by simpa using h) fun k t _ hk ht => ?_
    rw [Nat.zero_add] at hk
    obtain ⟨t', ht', hrows⟩ := ht.record (p := p) (g := gauge' k) hk (by simpa using hrec k hk)
    refine ⟨t', ht', ?_⟩
    convert hrows using 2 with i
    rcases Nat.lt_trichotomy i k with hik | rfl | hik
    · rw [if_pos (by omega), Function.update_of_ne hik.ne, if_pos hik]
    · rw [if_pos (Nat.lt_succ_self i), Function.update_self]
    · rw [if_neg (by omega), Function.update_of_ne hik.ne', if_neg (by omega)]
  refine ⟨s', htick, hrows.backends, hrows.length, fun i hi hm => ?_, hrows.rest⟩
  have hrow := hrows.rows i hi hm
  rwa [Nat.zero_add, if_pos hi] at hrow

/-- The outcomes of the checks of one backend. -/
def outcomes (config : HealthCheckConfig) (ticks : List Tick) (i : ℕ) : List Bool :=
  ticks.map fun results => config.dialOk (results i)

/-- Any number of ticks below `2 ^ 32`. -/
theorem run_rows (p : Profile) (config : HealthCheckConfig) (n : ℕ) (metrics : List TunnelMetrics)
    {ticks : List Tick} (hlen : ticks.length < 2 ^ 32) :
    ∃ s, run (tick p config) (start n metrics) ticks = .ok s ∧ Rows n (fun i =>
      Gauge.after config (metrics.getD i default) (outcomes config ticks i)) metrics s := by
  induction ticks using List.reverseRecOn with
  | nil =>
      refine ⟨_, rfl, List.length_replicate, rfl, fun i hi hm => ?_, fun i _ => rfl⟩
      have hget : metrics[i]? = some (metrics.getD i default) := by
        rw [List.getD_eq_getElem?_getD, List.getElem?_eq_getElem hm, Option.getD_some]
      rw [outcomes, List.map_nil, Gauge.after_nil]
      exact hasRow_start hi hget
  | append_singleton ticks results ih =>
      rw [List.length_append, List.length_singleton] at hlen
      obtain ⟨s, hrun, hrows⟩ := ih (by omega)
      have hrec : ∀ i < n, (Gauge.after config (metrics.getD i default)
          (outcomes config ticks i)).record p config (config.dialOk (results i)) =
            .ok (Gauge.after config (metrics.getD i default)
              (outcomes config (ticks ++ [results]) i)) := by
        intro i _
        rw [outcomes, outcomes, List.map_append, List.map_singleton]
        exact Gauge.record_after (by simpa using hlen) _
      obtain ⟨s', htick, hrows'⟩ := tick_rows hrows hrec
      exact ⟨s', run_append.mpr ⟨s, hrun, run_cons_eq_ok.mpr ⟨s', htick, rfl⟩⟩, hrows'⟩

/-- **The published metrics in closed form.** For any number of backends, any metrics, any
thresholds, and fewer than `2 ^ 32` ticks with any outcomes, the loop runs, in a debug build
too. Slot `i` below the number of backends is `published` from its own outcomes, every other one
is left alone. -/
theorem closed_form (p : Profile) (config : HealthCheckConfig) (n : ℕ)
    (metrics : List TunnelMetrics) {ticks : List Tick} (hlen : ticks.length < 2 ^ 32) :
    ∃ s, run (tick p config) (start n metrics) ticks = .ok s ∧
      s.metrics = metrics.mapIdx fun i m =>
        if i < n then published config m (outcomes config ticks i) else m := by
  obtain ⟨s, hrun, hrows⟩ := run_rows p config n metrics hlen
  refine ⟨s, hrun, List.ext_getElem? fun i => ?_⟩
  rw [List.getElem?_mapIdx]
  rcases Nat.lt_or_ge i n with hi | hi
  · rcases Nat.lt_or_ge i metrics.length with hm | hm
    · rw [(hrows.rows i hi hm).metrics, List.getElem?_eq_getElem hm, Option.map_some, if_pos hi,
        Gauge.after, List.getD_eq_getElem?_getD, List.getElem?_eq_getElem hm, Option.getD_some]
    · rw [List.getElem?_eq_none_iff.mpr (hrows.length ▸ hm), List.getElem?_eq_none_iff.mpr hm]
      rfl
  · rw [hrows.rest i hi]
    simp [Nat.not_lt.mpr hi]

/-- Three failures and a success, with metrics for the first of two backends: the success is too
little to publish anything. -/
theorem closed_form_four :
    ∃ s, run (tick .dev {}) (start 2 [{ recentErrors := 7 }])
        (checks [true, false, false, false, true]) = .ok s ∧
      s.metrics.map (fun m => (m.recentErrors, m.totalErrors)) = [(3, 3)] := by
  have hlen : (checks [true, false, false, false, true]).length < 2 ^ 32 := by decide
  obtain ⟨s, hrun, hmetrics⟩ := closed_form .dev {} 2 [{ recentErrors := 7 }] hlen
  exact ⟨s, hrun, by rw [hmetrics]; decide⟩

end HealthLoop

end RotaLb
