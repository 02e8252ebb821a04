import Mathlib.Algebra.Order.Field.Rat
import Mathlib.Data.Prod.Lex
import Mathlib.Order.WithBot
import RotaLb.StepSystem
import RotaLb.Strategy

/-!
# What the Strategies Pick

For every built-in strategy, in a release build: a pick on a non-empty view returns, and
the index it returns is below the view's length. The scanning strategies return the first
minimum of their key (`LowestRtt`, `LeastConnections`, `HealthWeighted`); the stateful
ones keep the invariant that makes their own indexing and division safe, whatever pool
sizes they have seen (`WeightedRoundRobin.WellSized`, `Failover.Settled`).

`LawfulStrategy` is the contract of the trait's `pick`, "an index in `[0, view.len())`",
as a class: an invariant of the strategy's states under which every call returns, keeps
the invariant and picks in range. The balancer's results about arbitrary strategies
assume it.

## Main results

* `LowestRtt.pick_isFirstMin`, `LeastConnections.pick_isFirstMin`,
  `HealthWeighted.pick_isFirstMin`: **the scans return the first minimum**.
* The instance `LawfulStrategy Builtin`.
* `Builtin.pick_in_range`: **index safety over every history** of picks and reports.
-/

namespace RotaLb

open Rust Scan StepSystem

/-- The key of the backend at an index, the default metrics standing past the end. -/
def keyAt {κ : Type} (f : TunnelMetrics → κ) (metrics : List TunnelMetrics) (i : ℕ) : κ :=
  f (metrics.getD i default)

/-- The key at a position of the list is the key of the element there. -/
theorem keyAt_of_getElem? {κ : Type} {f : TunnelMetrics → κ} {metrics : List TunnelMetrics}
    {i : ℕ} {m : TunnelMetrics} (h : metrics[i]? = some m) : keyAt f metrics i = f m := by
  rw [keyAt, List.getD_eq_getElem?_getD, h, Option.getD_some]

/-! ### The scanning strategies -/

/-- The shared RTT scan holds the first minimum of the RTTs, an absent one read as
`Duration::MAX`. -/
theorem lowestRttScan_best (metrics : List TunnelMetrics) :
    Best (keyAt TunnelMetrics.rttOrMax metrics) Duration.MAX metrics.length
      (lowestRttScan metrics) := by
  refine forEnum_rule best_zero fun i m best hm hbest => ?_
  have hkey : keyAt TunnelMetrics.rttOrMax metrics i = m.rttOrMax := keyAt_of_getElem? hm
  have hstep := hbest.step (Duration.le_MAX _)
  rw [hkey] at hstep
  rw [TunnelMetrics.rttOrMax] at hstep
  cases hr : m.rtt with
  | some rtt =>
      rw [hr] at hstep
      exact hstep
  | none =>
      -- an unknown RTT is `Duration::MAX`, which is below no best RTT
      rw [hr, Option.getD_none, if_neg] at hstep
      · exact hstep
      · rcases hbest with ⟨-, rfl⟩ | ⟨-, hb⟩
        · exact lt_irrefl _
        · exact not_lt.mpr (Duration.le_MAX _)

/-- **`LowestRtt` picks the first minimum of the RTTs.** -/
theorem LowestRtt.pick_isFirstMin {view : PoolView} (hv : 0 < view.len) :
    IsFirstMin (keyAt TunnelMetrics.rttOrMax view.metrics) view.len (LowestRtt.pick view) :=
  (lowestRttScan_best view.metrics).isFirstMin hv

/-- The order in which `LeastConnections` prefers backends. -/
def TunnelMetrics.loadKey (m : TunnelMetrics) : ℕ ×ₗ Duration :=
  toLex (m.activeConnections.toNat, m.rttOrMax)

/-- Comparing two load keys compares the counts first and the RTTs on a tie. -/
theorem loadKey_lt_iff {m b : TunnelMetrics} :
    m.loadKey < b.loadKey ↔ m.activeConnections < b.activeConnections ∨
      (m.activeConnections = b.activeConnections ∧ m.rttOrMax < b.rttOrMax) := by
  rw [TunnelMetrics.loadKey, TunnelMetrics.loadKey, Prod.Lex.toLex_lt_toLex,
    UInt32.lt_iff_toNat_lt, UInt32.toNat_inj]

/-- The accumulator of the `LeastConnections` loop: the sentinel count before the first
backend, the first minimum and its count from then on. -/
def LeastConnections.Inv (metrics : List TunnelMetrics) (n : ℕ) (best : ℕ × UInt32) : Prop :=
  (n = 0 ∧ best = (0, u32Max)) ∨
    (IsFirstMin (keyAt TunnelMetrics.loadKey metrics) n best.1 ∧
      ∃ b, metrics[best.1]? = some b ∧ best.2 = b.activeConnections)

/-- One round of the `LeastConnections` loop returns and keeps its invariant. -/
theorem LeastConnections.round {metrics : List TunnelMetrics} {i : ℕ} {m : TunnelMetrics}
    {best : ℕ × UInt32} (hm : metrics[i]? = some m) (h : Inv metrics i best) :
    ∃ best', (if m.activeConnections < best.2 then
        .ok (i, m.activeConnections)
      else if m.activeConnections = best.2 then do
        let b ← Vec.get metrics best.1
        if m.rttOrMax < b.rttOrMax then return (i, best.2) else return best
      else
        .ok best : Except Panic (ℕ × UInt32)) = .ok best' ∧ Inv metrics (i + 1) best' := by
  rcases h with ⟨rfl, rfl⟩ | ⟨hmin, b, hb, hcount⟩
  · -- the first backend: its count is below the sentinel or equal to it
    have hfirst : ∀ c, c = m.activeConnections → Inv metrics (0 + 1) (0, c) :=
      fun c hc => .inr ⟨isFirstMin_one, m, hm, hc⟩
    by_cases hlt : m.activeConnections < u32Max
    · exact ⟨(0, m.activeConnections), if_pos hlt, hfirst _ rfl⟩
    · have heq : m.activeConnections = u32Max := by
        rw [UInt32.lt_iff_toNat_lt] at hlt
        have := m.activeConnections.toNat_lt
        have h' : u32Max.toNat = 2 ^ 32 - 1 := rfl
        exact UInt32.toNat_inj.mp (by omega)
      refine ⟨(0, u32Max), ?_, hfirst _ heq.symm⟩
      rw [if_neg hlt, if_pos heq, Vec.get_eq_ok.mpr hm]
      exact if_neg (lt_irrefl _)
  · have hstep := hmin.step
    rw [keyAt_of_getElem? hm, keyAt_of_getElem? hb] at hstep
    simp only [loadKey_lt_iff, ← hcount] at hstep
    by_cases hlt : m.activeConnections < best.2
    · rw [if_pos (.inl hlt)] at hstep
      exact ⟨(i, m.activeConnections), if_pos hlt, .inr ⟨hstep, m, hm, rfl⟩⟩
    · by_cases heq : m.activeConnections = best.2
      · rw [if_neg hlt, if_pos heq, Vec.get_eq_ok.mpr hb]
        by_cases hr : m.rttOrMax < b.rttOrMax
        · rw [if_pos (.inr ⟨heq, hr⟩)] at hstep
          exact ⟨(i, best.2), if_pos hr, .inr ⟨hstep, m, hm, heq.symm⟩⟩
        · rw [if_neg (by rintro (h | ⟨-, h⟩) <;> contradiction)] at hstep
          exact ⟨best, if_neg hr, .inr ⟨hstep, b, hb, hcount⟩⟩
      · rw [if_neg (by rintro (h | ⟨h, -⟩) <;> contradiction)] at hstep
        exact ⟨best, by rw [if_neg hlt, if_neg heq], .inr ⟨hstep, b, hb, hcount⟩⟩

/-- **`LeastConnections` picks the first minimum of (connections, RTT)**: it returns, for
the re-read of the best backend is always in range. -/
theorem LeastConnections.pick_isFirstMin {view : PoolView} (hv : 0 < view.len) :
    ∃ i, LeastConnections.pick view = .ok i ∧
      IsFirstMin (keyAt TunnelMetrics.loadKey view.metrics) view.len i := by
  have h0 : LeastConnections.Inv view.metrics 0 (0, u32Max) := .inl ⟨rfl, rfl⟩
  obtain ⟨best, hok, hinv⟩ := forEnumM_rule h0 fun i m best hm h => LeastConnections.round hm h
  refine ⟨best.1, ?_, ?_⟩
  · rw [LeastConnections.pick, hok]
    rfl
  · rcases hinv with ⟨h0, -⟩ | ⟨hmin, -⟩
    · exact absurd hv (by rw [PoolView.len, h0]; exact Nat.lt_irrefl 0)
    · exact hmin

/-- The RTT term of the score. -/
def HealthWeighted.rttTerm (m : TunnelMetrics) : ℕ :=
  match m.rtt with
  | none => DEFAULT_RTT_US
  | some r => (tryFrom 64 r.asMicros).getD DEFAULT_RTT_US

/-- The score in a release build, where the sum wraps. -/
def HealthWeighted.wrappedScore (m : TunnelMetrics) : ℕ :=
  (rttTerm m + m.recentErrors.toNat * ERROR_PENALTY_US
    + m.activeConnections.toNat * LOAD_PENALTY_US) % 2 ^ 64

/-- In a release build the score is the wrapped sum; no product overflows. -/
theorem HealthWeighted.score_release (m : TunnelMetrics) :
    HealthWeighted.score .release m = .ok (HealthWeighted.wrappedScore m) := by
  simp only [HealthWeighted.score, HealthWeighted.wrappedScore, mul_release, add_release]
  simp only [bind, Except.bind, Nat.add_mod_mod, Nat.mod_add_mod]
  rfl

/-- **`HealthWeighted` picks the first minimum of the wrapped score.** -/
theorem HealthWeighted.pick_isFirstMin {view : PoolView} (hv : 0 < view.len) :
    ∃ i, HealthWeighted.pick .release view = .ok i ∧
      IsFirstMin (keyAt HealthWeighted.wrappedScore view.metrics) view.len i := by
  have h0 : Best (keyAt HealthWeighted.wrappedScore view.metrics) u64Max 0 (0, u64Max) := best_zero
  obtain ⟨best, hok, hinv⟩ := forEnumM_rule (l := view.metrics)
    (f := fun best i m => do
      let score ← HealthWeighted.score .release m
      return if score < best.2 then (i, score) else best) h0
    fun i m best hm h => by
      have hkey : keyAt HealthWeighted.wrappedScore view.metrics i = wrappedScore m :=
        keyAt_of_getElem? hm
      have hle : wrappedScore m ≤ u64Max :=
        Nat.le_sub_one_of_lt (Nat.mod_lt _ (by decide))
      have hstep := h.step (hkey ▸ hle)
      rw [hkey] at hstep
      exact ⟨_, by rw [score_release]; rfl, hstep⟩
  refine ⟨best.1, ?_, hinv.isFirstMin hv⟩
  rw [HealthWeighted.pick, hok]
  rfl

/-! ### The stateful strategies -/

/-- `RoundRobin` returns an index in range from any cursor. -/
theorem RoundRobin.pick_ok (s : RoundRobin) {view : PoolView} (hv : 0 < view.len) :
    s.pick view = .ok (s.next % view.len, ⟨s.next % view.len + 1⟩) := by
  rw [RoundRobin.pick, rem_of_pos hv]
  rfl

/-- `Sticky` returns an index in range from any pin, also one of a larger pool. -/
theorem Sticky.pick_lt (s : Sticky) {view : PoolView} (hv : 0 < view.len) :
    (s.pick view).1 < view.len := by
  unfold Sticky.pick
  cases s.pinned with
  | some idx => exact lt_of_le_of_lt (min_le_right _ _) (by omega)
  | none => exact (LowestRtt.pick_isFirstMin hv).lt

/-- A `Failover` that has not seen a pool yet has not moved its primary. -/
def Failover.Settled (s : Failover) : Prop := s.len = 0 → s.primary = 0

/-- `Failover` returns the primary reduced to the pool size. -/
theorem Failover.pick_ok (s : Failover) {view : PoolView} (hv : 0 < view.len) :
    s.pick view = .ok (s.primary % view.len, ⟨s.primary, view.len⟩) := by
  simp only [Failover.pick, Nat.ne_of_gt hv, if_false, rem_of_pos hv]
  rfl

/-- A report about another index than the stored primary changes nothing. -/
theorem Failover.reportError_of_ne {s : Failover} {idx : ℕ} (h : idx ≠ s.primary) :
    s.reportError .release idx = .ok s := by
  simp only [Failover.reportError, bind, Except.bind, if_neg h, add_release]
  split <;> rfl

/-- A report about the stored primary moves it on, within the pool last seen. -/
theorem Failover.reportError_primary {s : Failover} (hlen : 0 < s.len) :
    s.reportError .release s.primary =
      .ok { s with primary := (s.primary + 1) % 2 ^ 64 % s.len } := by
  unfold Failover.reportError
  simp only [if_pos hlen, bind, Except.bind, if_true, add_release, rem_of_pos hlen]
  rfl

/-- Every error report returns. The divisor is never 0: before the first pick only index 0
can match the primary, and 1 is not 0. -/
theorem Failover.reportError_ok {s : Failover} (h : s.Settled) (idx : ℕ) :
    ∃ s', s.reportError .release idx = .ok s' ∧ s'.Settled := by
  by_cases hidx : idx = s.primary
  · subst hidx
    by_cases hlen : 0 < s.len
    · refine ⟨_, reportError_primary hlen, fun h0 => ?_⟩
      exact absurd (show s.len = 0 from h0) (Nat.ne_of_gt hlen)
    · obtain ⟨primary, len⟩ := s
      obtain rfl : len = 0 := Nat.eq_zero_of_not_pos hlen
      obtain rfl : primary = 0 := h rfl
      exact ⟨⟨0, 0⟩, rfl, h⟩
  · exact ⟨s, reportError_of_ne hidx, h⟩

namespace WeightedRoundRobin

/-- The weights of a `WeightedRoundRobin` are those of its RTTs, and there is one count of
picks for each. -/
structure WellSized (s : WeightedRoundRobin) : Prop where
  weights : s.weights = s.rtts.map weight
  picks : s.picks.length = s.weights.length

/-- A rebuild restores the vectors, whatever they were. -/
theorem rebuild_wellSized (s : WeightedRoundRobin) : (rebuild s).WellSized :=
  ⟨rfl, by simp [rebuild]⟩

/-- Taking over the RTTs of a view keeps the vectors in step, also when the pool shrank or
grew. -/
theorem refresh_wellSized {s : WeightedRoundRobin} (h : s.WellSized) (view : PoolView) :
    (refresh s view).WellSized := by
  simp only [refresh]
  split
  · exact rebuild_wellSized _
  · exact h

/-- After a refresh the strategy holds the RTTs of the view. -/
theorem refresh_rtts (s : WeightedRoundRobin) (view : PoolView) :
    (refresh s view).rtts = view.metrics.map TunnelMetrics.rtt := by
  simp only [refresh]
  split
  · rfl
  · rename_i h
    exact (not_not.mp h).symm

/-- After a refresh there is one weight for each backend of the view. -/
theorem refresh_length {s : WeightedRoundRobin} (h : s.WellSized) (view : PoolView) :
    (refresh s view).weights.length = view.len := by
  rw [(refresh_wellSized h view).weights, refresh_rtts, List.length_map, List.length_map,
    PoolView.len]

/-- The element at an index in range. -/
theorem getD_of_lt {v : List ℕ} {k : ℕ} (hk : k < v.length) : v.getD k 0 = v[k] := by
  rw [List.getD_eq_getElem?_getD, List.getElem?_eq_getElem hk, Option.getD_some]

/-- The body of the scan: index `i` is compared with the best one so far. -/
def compare (p : Profile) (s : WeightedRoundRobin) (best i : ℕ) : Except Panic ℕ := do
  let lhs ← p.mul 64 (← Vec.get s.picks i) (← Vec.get s.weights best)
  let rhs ← p.mul 64 (← Vec.get s.picks best) (← Vec.get s.weights i)
  return if lhs < rhs then i else best

theorem leastServed_eq (p : Profile) (s : WeightedRoundRobin) :
    leastServed p s = forRangeM 1 (s.weights.length - 1) 0 (s.compare p) := rfl

/-- Inside the vectors only the products can fail. -/
theorem compare_eq (p : Profile) {s : WeightedRoundRobin} (h : s.WellSized) {best i : ℕ}
    (hb : best < s.weights.length) (hi : i < s.weights.length) :
    s.compare p best i = do
      let lhs ← p.mul 64 (s.picks.getD i 0) (s.weights.getD best 0)
      let rhs ← p.mul 64 (s.picks.getD best 0) (s.weights.getD i 0)
      return if lhs < rhs then i else best := by
  have hlen : s.picks.length = s.weights.length := h.picks
  have hget : ∀ {v : List ℕ} {k : ℕ}, k < v.length → Vec.get v k = .ok (v.getD k 0) := by
    intro v k hk
    rw [Vec.get_of_lt hk, getD_of_lt hk]
  have hi' : i < s.picks.length := by omega
  have hb' : best < s.picks.length := by omega
  rw [compare, hget hi', hget hb', hget hi, hget hb]
  rfl

/-- One comparison of the scan in a release build. -/
theorem compare_release {s : WeightedRoundRobin} (h : s.WellSized) {best i : ℕ}
    (hb : best < s.weights.length) (hi : i < s.weights.length) :
    s.compare .release best i
      = .ok (if s.picks.getD i 0 * s.weights.getD best 0 % 2 ^ 64
          < s.picks.getD best 0 * s.weights.getD i 0 % 2 ^ 64 then i else best) := by
  rw [compare_eq .release h hb hi, mul_release, mul_release]
  rfl

/-- A checked conversion with a positive default. -/
theorem tryFrom_getD_pos {bits n d : ℕ} (hn : 0 < n) (hd : 0 < d) :
    0 < (tryFrom bits n).getD d := by
  unfold tryFrom
  split
  · exact hn
  · exact hd

/-- A weight is at least 1. -/
theorem weight_pos (rtt : Option Duration) : 0 < weight rtt := by
  cases rtt with
  | none => exact Nat.one_pos
  | some r => exact tryFrom_getD_pos (lt_of_lt_of_le Nat.one_pos (le_max_right _ _)) Nat.one_pos

/-- A weight is at most 1000. -/
theorem weight_le (rtt : Option Duration) : weight rtt ≤ 1000 := by
  have htry : ∀ {n : ℕ}, n ≤ 1000 → (tryFrom 32 n).getD MIN_WEIGHT ≤ 1000 := by
    intro n hn
    rw [tryFrom, if_pos (by omega)]
    exact hn
  cases rtt with
  | none => exact Nat.le_of_ble_eq_true rfl
  | some r => exact htry (max_le (Nat.div_le_self _ _) (Nat.le_of_ble_eq_true rfl))

/-- How much a backend was served for its weight. -/
def ratio (s : WeightedRoundRobin) (i : ℕ) : ℚ := s.picks.getD i 0 / s.weights.getD i 0

/-- No product of the scan overflows. -/
def Fits (s : WeightedRoundRobin) : Prop := ∀ p ∈ s.picks, ∀ w ∈ s.weights, p * w < 2 ^ 64

/-- Cross multiplication compares the ratios. -/
theorem cross_lt_iff {s : WeightedRoundRobin} (h : s.WellSized) {i j : ℕ}
    (hi : i < s.weights.length) (hj : j < s.weights.length) :
    s.picks.getD i 0 * s.weights.getD j 0 < s.picks.getD j 0 * s.weights.getD i 0
      ↔ s.ratio i < s.ratio j := by
  have hpos : ∀ {k : ℕ}, k < s.weights.length → 0 < s.weights.getD k 0 := by
    intro k hk
    have hmem : s.weights.getD k 0 ∈ s.rtts.map weight := by
      rw [← h.weights, getD_of_lt hk]
      exact List.getElem_mem hk
    obtain ⟨rtt, -, he⟩ := List.mem_map.mp hmem
    exact he ▸ weight_pos rtt
  rw [ratio, ratio, div_lt_div_iff₀ (Nat.cast_pos.mpr (hpos hi)) (Nat.cast_pos.mpr (hpos hj))]
  exact_mod_cast Iff.rfl

/-- Below the overflow, so do the products in 64 bits. -/
theorem ratio_lt_iff {s : WeightedRoundRobin} (h : s.WellSized) (hfits : s.Fits) {i j : ℕ}
    (hi : i < s.weights.length) (hj : j < s.weights.length) :
    s.picks.getD i 0 * s.weights.getD j 0 % 2 ^ 64 < s.picks.getD j 0 * s.weights.getD i 0 % 2 ^ 64
      ↔ s.ratio i < s.ratio j := by
  have hprod : ∀ {k l : ℕ}, k < s.weights.length → l < s.weights.length →
      s.picks.getD k 0 * s.weights.getD l 0 < 2 ^ 64 := by
    intro k l hk hl
    have hk' : k < s.picks.length := h.picks ▸ hk
    rw [getD_of_lt hk', getD_of_lt hl]
    exact hfits _ (List.getElem_mem hk') _ (List.getElem_mem hl)
  rw [Nat.mod_eq_of_lt (hprod hi hj), Nat.mod_eq_of_lt (hprod hj hi)]
  exact cross_lt_iff h hi hj

/-- **`WeightedRoundRobin` scans for the first minimum of picks over weight**, as long as
no product overflows. -/
theorem leastServed_isFirstMin {s : WeightedRoundRobin} (h : s.WellSized) (hfits : s.Fits)
    (hne : 0 < s.weights.length) :
    ∃ b, leastServed .release s = .ok b ∧ IsFirstMin s.ratio s.weights.length b := by
  have hlen : 1 + (s.weights.length - 1) = s.weights.length := by omega
  have hfirst : IsFirstMin s.ratio 1 0 := isFirstMin_one
  have hscan := forRangeM_rule (n := s.weights.length - 1) hfirst fun i best hi hlt hbest => by
      have hi' : i < s.weights.length := by omega
      have hb' : best < s.weights.length := by have := hbest.lt; omega
      refine ⟨_, compare_release h hb' hi', ?_⟩
      simp only [ratio_lt_iff h hfits hi' hb']
      exact hbest.step
  rwa [hlen] at hscan

/-- The scan for the least-served backend returns an index of its vectors. -/
theorem leastServed_lt {s : WeightedRoundRobin} (h : s.WellSized)
    (hne : 0 < s.weights.length) :
    ∃ b, leastServed .release s = .ok b ∧ b < s.weights.length := by
  refine forRangeM_rule (P := fun _ best => best < s.weights.length) hne
    fun i best _ hi hbest => ⟨_, compare_release h hbest (by omega), ?_⟩
  split
  · omega
  · exact hbest

/-- A pick counts the index that the scan found. -/
theorem pick_of_leastServed {s : WeightedRoundRobin} {view : PoolView}
    (hws : (refresh s view).WellSized) {b : ℕ} (hlt : b < (refresh s view).weights.length)
    (hb : leastServed .release (refresh s view) = .ok b) :
    s.pick .release view = .ok (b, { refresh s view with
      picks := (refresh s view).picks.modify b
        fun _ => ((refresh s view).picks.getD b 0 + 1) % 2 ^ 64 }) := by
  have hb' : b < (refresh s view).picks.length := hws.picks ▸ hlt
  have hne : (refresh s view).weights.isEmpty = false := by
    rw [List.isEmpty_eq_false_iff]
    exact List.ne_nil_of_length_pos (by omega)
  simp only [pick, hne, hb, bind, Except.bind, Vec.get_of_lt hb', add_release,
    Bool.false_eq_true, if_false, getD_of_lt hb']
  rw [Vec.modify_eq_ok.mpr ⟨hb', rfl⟩]
  rfl

/-- A pick on a non-empty view returns an index of the view and keeps the lengths. -/
theorem pick_ok {s : WeightedRoundRobin} (h : s.WellSized) {view : PoolView}
    (hv : 0 < view.len) :
    ∃ i s', s.pick .release view = .ok (i, s') ∧
      leastServed .release (refresh s view) = .ok i ∧ i < view.len ∧ s'.WellSized := by
  have hws := refresh_wellSized h view
  have hlen := refresh_length h view
  obtain ⟨b, hb, hlt⟩ := leastServed_lt hws (by omega)
  exact ⟨b, _, pick_of_leastServed hws hlt hb, hb, by omega, hws.weights, by simpa using hws.picks⟩

end WeightedRoundRobin

/-! ### The contract of the trait -/

/-- A strategy that keeps the contract of `pick`: from its states satisfying `Good`, which
every call keeps, every call returns and every pick on a non-empty view is in range. -/
class LawfulStrategy (σ : Type) [BalanceStrategy σ] where
  Good : σ → Prop
  pick_ok : ∀ (env : Env) (draw : ℕ) {s : σ} {view : PoolView}, Good s → 0 < view.len →
    ∃ i s', BalanceStrategy.pick env draw s view = .ok (i, s') ∧ i < view.len ∧ Good s'
  reportError_ok : ∀ {s : σ} (idx : ℕ), Good s →
    ∃ s', BalanceStrategy.reportError s idx = .ok s' ∧ Good s'
  reportSuccess_ok : ∀ {s : σ} (idx : ℕ), Good s →
    ∃ s', BalanceStrategy.reportSuccess s idx = .ok s' ∧ Good s'

namespace Builtin

/-- The invariants of the stateful strategies. -/
def Good : Builtin → Prop
  | weightedRoundRobin s => s.WellSized
  | failover s => s.Settled
  | _ => True

/-- Every constructor makes a good state. -/
theorem Constructed.good {s : Builtin} (h : Constructed s) : Good s := by
  cases h with
  | weightedRoundRobin => exact ⟨rfl, rfl⟩
  | failover => exact fun _ => rfl
  | failoverWith n => exact fun _ => rfl
  | _ => trivial

/-- Every pick on a non-empty view returns an index of the view. -/
theorem pick_ok (env : Env) (draw : ℕ) {s : Builtin} {view : PoolView} (h : Good s)
    (hv : 0 < view.len) :
    ∃ i s', pick .release env draw s view = .ok (i, s') ∧ i < view.len ∧ Good s' := by
  cases s with
  | roundRobin s =>
      refine ⟨_, roundRobin ⟨s.next % view.len + 1⟩, ?_, Nat.mod_lt s.next hv, trivial⟩
      simp only [pick, s.pick_ok hv]
      rfl
  | random =>
      refine ⟨_, random, ?_, env.genRange_lt draw view.len hv, trivial⟩
      simp only [pick, Random.pick, if_neg (Nat.ne_of_gt hv)]
      rfl
  | lowestRtt => exact ⟨_, lowestRtt, rfl, (LowestRtt.pick_isFirstMin hv).lt, trivial⟩
  | leastConnections =>
      obtain ⟨i, hi, hmin⟩ := LeastConnections.pick_isFirstMin hv
      refine ⟨i, leastConnections, ?_, hmin.lt, trivial⟩
      simp only [pick, hi]
      rfl
  | hashByAddr =>
      refine ⟨(tryFrom 64 (env.finish view.dialAddr).toNat).getD 0 % view.len, hashByAddr, ?_,
        Nat.mod_lt _ hv, trivial⟩
      simp only [pick, HashByAddr.pick, rem_of_pos hv]
      rfl
  | weightedRoundRobin s =>
      obtain ⟨i, s', hi, -, hlt, hws⟩ := WeightedRoundRobin.pick_ok (s := s) h hv
      refine ⟨i, weightedRoundRobin s', ?_, hlt, hws⟩
      simp only [pick, hi]
      rfl
  | failover s =>
      refine ⟨_, failover ⟨s.primary, view.len⟩, ?_, Nat.mod_lt s.primary hv, ?_⟩
      · simp only [pick, s.pick_ok hv]
        rfl
      · intro h0
        exact absurd (show view.len = 0 from h0) (by omega)
  | healthWeighted =>
      obtain ⟨i, hi, hmin⟩ := HealthWeighted.pick_isFirstMin hv
      refine ⟨i, healthWeighted, ?_, hmin.lt, trivial⟩
      simp only [pick, hi]
      rfl
  | sticky s => exact ⟨_, sticky (s.pick view).2, rfl, s.pick_lt hv, trivial⟩

/-- Every error report returns. -/
theorem reportError_ok {s : Builtin} (idx : ℕ) (h : Good s) :
    ∃ s', reportError .release s idx = .ok s' ∧ Good s' := by
  cases s with
  | failover s =>
      obtain ⟨s', hs', hset⟩ := Failover.reportError_ok (s := s) h idx
      refine ⟨failover s', ?_, hset⟩
      simp only [reportError, hs']
      rfl
  | _ => exact ⟨_, rfl, h⟩

end Builtin

instance : LawfulStrategy Builtin where
  Good := Builtin.Good
  pick_ok env draw _ _ h hv := Builtin.pick_ok env draw h hv
  reportError_ok idx h := Builtin.reportError_ok idx h
  reportSuccess_ok _ h := ⟨_, rfl, h⟩

/-! ### Histories of calls -/

/-- A call the balancer, or any other caller, makes on a strategy. -/
inductive Call
  | pick (draw : ℕ) (view : PoolView)
  | reportError (idx : ℕ)
  | reportSuccess (idx : ℕ)

/-- The strategy's state after a call. -/
def Call.step {σ : Type} [BalanceStrategy σ] (env : Env) (s : σ) : Call → Except Panic σ
  | .pick draw view => (BalanceStrategy.pick env draw s view).map Prod.snd
  | .reportError idx => BalanceStrategy.reportError s idx
  | .reportSuccess idx => BalanceStrategy.reportSuccess s idx

/-- A call that does not pick from an empty view. -/
def Call.NonEmpty : Call → Prop
  | .pick _ view => 0 < view.len
  | _ => True

/-- A lawful strategy answers every call and stays lawful. -/
theorem Call.step_ok {σ : Type} [BalanceStrategy σ] [LawfulStrategy σ] (env : Env) {s : σ}
    {c : Call} (h : LawfulStrategy.Good s) (hc : c.NonEmpty) :
    ∃ s', Call.step env s c = .ok s' ∧ LawfulStrategy.Good s' := by
  cases c with
  | pick draw view =>
      obtain ⟨i, s', hp, -, hg⟩ := LawfulStrategy.pick_ok env draw h hc
      exact ⟨s', by rw [Call.step, hp]; rfl, hg⟩
  | reportError idx => exact LawfulStrategy.reportError_ok idx h
  | reportSuccess idx => exact LawfulStrategy.reportSuccess_ok idx h

/-- **Index safety over every history.** From the constructor of any of the nine
strategies, any sequence of picks on non-empty views of any lengths and metrics and of
reports with any indices returns, and a further pick on any non-empty view returns an
index below its length. -/
theorem Builtin.pick_in_range (env : Env) {s₀ : Builtin} (h₀ : Builtin.Constructed s₀)
    {calls : List Call} (hcalls : ∀ c ∈ calls, c.NonEmpty) (draw : ℕ) {view : PoolView}
    (hv : 0 < view.len) :
    ∃ s i s', run (Call.step env) s₀ calls = .ok s ∧
      BalanceStrategy.pick env draw s view = .ok (i, s') ∧ i < view.len := by
  obtain ⟨s, hrun, hgood⟩ := run_total (I := Builtin.Good)
    (P := Call.NonEmpty) (fun _ _ hs hc => Call.step_ok env hs hc) h₀.good hcalls
  obtain ⟨i, s', hpick, hlt, -⟩ := Builtin.pick_ok env draw hgood hv
  exact ⟨s, i, s', hrun, hpick, hlt⟩

/-- A view of `n` backends without metrics. -/
def PoolView.blank (n : ℕ) : PoolView := ⟨"h:1", List.replicate n default⟩

/-- A `WeightedRoundRobin` that has served pools of three and of five backends and heard of an
error at an index it never had picks in range on a pool of one. -/
theorem Builtin.pick_in_range_after_shrink :
    ∃ s i s', run (Call.step Env.plain) (weightedRoundRobin .new)
        [.pick 0 (.blank 3), .pick 0 (.blank 5), .reportError 9] = .ok s ∧
      BalanceStrategy.pick Env.plain 0 s (.blank 1) = .ok (i, s') ∧ i < (PoolView.blank 1).len := by
  refine Builtin.pick_in_range Env.plain .weightedRoundRobin (fun c hc => ?_) 0 Nat.one_pos
  simp only [List.mem_cons, List.not_mem_nil, or_false] at hc
  rcases hc with rfl | rfl | rfl
  · exact Nat.zero_lt_succ 2
  · exact Nat.zero_lt_succ 4
  · trivial

end RotaLb
