import RotaLb.FixedPool
import RotaLb.StrategySafety

/-!
# The Shares of Weighted Round-Robin

`WeightedRoundRobin` serves the least-served backend first, its weights being those of the
RTTs it last saw. As long as the RTTs stay the same its pick counts are the fair counts of
`Apportion`: exact shares after every full round.

`Serving rtts p s` is the invariant of a stretch of picks under one list of RTTs: `p` counts
the picks since the rebuild. In a balancer the RTTs change only with the pool, so with a fixed
pool all dials belong to one stretch, whatever else runs between them.

## Main results

* `pick_serving`: one pick under the RTTs of the stretch serves the least-served index.
* `trace_serving`: a stretch of picks is counted by the counters.
* `shares_exact`: **exact shares**, for the strategy on its own and for a balancer over every
  interleaving of dials.
-/

namespace RotaLb

open Rust Scan StepSystem Apportion

/-- The RTTs of a view, slot by slot. -/
def PoolView.rtts (view : PoolView) : List (Option Duration) := view.metrics.map TunnelMetrics.rtt

namespace WeightedRoundRobin

/-! ### Weights -/

/-- The weight of slot `i` under a list of RTTs. -/
def weightAt (rtts : List (Option Duration)) (i : ℕ) : ℕ := (rtts.map weight).getD i 0

/-- The sum of the weights under a list of RTTs. -/
def totalWeight (rtts : List (Option Duration)) : ℕ := (rtts.map weight).sum

theorem weightAt_of_getElem? {rtts : List (Option Duration)} {i : ℕ} {rtt : Option Duration}
    (h : rtts[i]? = some rtt) : weightAt rtts i = weight rtt := by
  rw [weightAt, List.getD_eq_getElem?_getD, List.getElem?_map, h]
  rfl

theorem weightAt_pos {rtts : List (Option Duration)} {i : ℕ} (hi : i < rtts.length) :
    0 < weightAt rtts i := by
  rw [weightAt_of_getElem? (List.getElem?_eq_getElem hi)]
  exact weight_pos _

theorem sum_weightAt (rtts : List (Option Duration)) :
    ∑ i ∈ Finset.range rtts.length, weightAt rtts i = totalWeight rtts := by
  simpa [weightAt, totalWeight] using sum_getD (rtts.map weight)

/-! ### One pick -/

/-- The number of picks of slot `i` since the last rebuild. -/
def served (s : WeightedRoundRobin) (i : ℕ) : ℕ := s.picks.getD i 0

/-- Under these RTTs the strategy has made the picks `p`: its counters say so, or it has made
none and is about to rebuild. -/
structure Serving (rtts : List (Option Duration)) (p : ℕ → ℕ) (s : WeightedRoundRobin) : Prop where
  fair : Fair (weightAt rtts) p rtts.length
  counts : (s.rtts ≠ rtts ∧ p = fun _ => 0) ∨ (s.rtts = rtts ∧ s.WellSized ∧ s.served = p)

variable {rtts : List (Option Duration)} {p : ℕ → ℕ} {s : WeightedRoundRobin} {view : PoolView}

/-- Other RTTs than the strategy's: everything begins anew. -/
theorem serving_zero (h : s.rtts ≠ rtts) : Serving rtts (fun _ => 0) s :=
  ⟨fair_zero, .inl ⟨h, rfl⟩⟩

/-- After the refresh of a pick the counters are those of the stretch. -/
theorem Serving.refreshed (h : Serving rtts p s) (hview : view.rtts = rtts) :
    (refresh s view).WellSized ∧ (refresh s view).served = p := by
  unfold refresh
  rcases h.counts with ⟨hne, rfl⟩ | ⟨heq, hws, hserved⟩
  · have hchanged : view.metrics.map TunnelMetrics.rtt ≠ s.rtts := fun he =>
      hne (he.symm.trans hview)
    rw [if_pos hchanged]
    refine ⟨rebuild_wellSized _, funext fun i => ?_⟩
    simp only [served, rebuild, List.getD_eq_getElem?_getD, List.getElem?_replicate]
    split <;> rfl
  · have hsame : ¬ view.metrics.map TunnelMetrics.rtt ≠ s.rtts :=
      not_not.mpr (hview.trans heq.symm)
    rw [if_neg hsame]
    exact ⟨hws, hserved⟩

/-- No product of the scan overflows while the picks since the rebuild stay few. -/
theorem fits_of_sum {N : ℕ} (hws : s.WellSized)
    (hsum : ∑ i ∈ Finset.range s.weights.length, s.served i ≤ N) (hN : 1000 * N < 2 ^ 64) :
    s.Fits := by
  intro p hp w hw
  obtain ⟨i, hi, rfl⟩ := List.mem_iff_getElem.mp hp
  have hle : s.picks[i] ≤ N := by
    have hmem : i ∈ Finset.range s.weights.length := Finset.mem_range.mpr (hws.picks ▸ hi)
    rw [← getD_of_lt hi]
    exact (Finset.single_le_sum (f := s.served) (fun _ _ => Nat.zero_le _) hmem).trans hsum
  have hw' : w ≤ 1000 := by
    rw [hws.weights] at hw
    obtain ⟨rtt, -, rfl⟩ := List.mem_map.mp hw
    exact weight_le rtt
  calc s.picks[i] * w ≤ N * 1000 := Nat.mul_le_mul hle hw'
    _ < 2 ^ 64 := by omega

/-- Writing one counter. -/
theorem getD_modify {v : List ℕ} {b : ℕ} (hb : b < v.length) (c i : ℕ) :
    (v.modify b fun _ => c).getD i 0 = if i = b then c else v.getD i 0 := by
  simp only [List.getD_eq_getElem?_getD, List.getElem?_modify]
  by_cases hib : i = b
  · subst hib
    simp [List.getElem?_eq_getElem hb]
  · simp [hib, Ne.symm hib]

/-- **One pick under the RTTs of the stretch**: the least-served index is served. -/
theorem pick_serving (h : Serving rtts p s) (hview : view.rtts = rtts) (hne : rtts ≠ [])
    (hfits : 1000 * ∑ i ∈ Finset.range rtts.length, p i < 2 ^ 64) :
    ∃ b s', s.pick .release view = .ok (b, s') ∧ b < rtts.length ∧ s'.rtts = rtts ∧
      Serving rtts (serve p b) s' := by
  obtain ⟨hws, hserved⟩ := h.refreshed hview
  have hrtts : (refresh s view).rtts = rtts := (refresh_rtts s view).trans hview
  have hweights : (refresh s view).weights = rtts.map weight := by rw [hws.weights, hrtts]
  have hlen : (refresh s view).weights.length = rtts.length := by rw [hweights, List.length_map]
  have hsum : ∑ i ∈ Finset.range (refresh s view).weights.length, (refresh s view).served i ≤
      ∑ i ∈ Finset.range rtts.length, p i := by rw [hserved, hlen]
  obtain ⟨b, hb, hmin⟩ := leastServed_isFirstMin hws (fits_of_sum hws hsum hfits)
    (hlen ▸ List.length_pos_iff.mpr hne)
  have hshare : (refresh s view).ratio = share (weightAt rtts) p := by
    rw [← hserved]
    exact funext fun i => by rw [ratio, hweights]; rfl
  rw [hshare, hlen] at hmin
  have hcount : (p b + 1) % 2 ^ 64 = p b + 1 := by
    have hle : p b ≤ ∑ i ∈ Finset.range rtts.length, p i :=
      Finset.single_le_sum (fun _ _ => Nat.zero_le _) (Finset.mem_range.mpr hmin.lt)
    exact Nat.mod_eq_of_lt (by omega)
  refine ⟨b, _, pick_of_leastServed hws (hlen ▸ hmin.lt) hb, hmin.lt, hrtts, h.fair.serve hmin,
    .inr ⟨hrtts, ⟨hws.weights, by simpa using hws.picks⟩, funext fun i => ?_⟩⟩
  have hget : (refresh s view).picks.getD b 0 = p b := congrFun hserved b
  have hlt : b < (refresh s view).picks.length := by rw [hws.picks, hlen]; exact hmin.lt
  rw [served, hget, hcount, getD_modify hlt, serve, Function.update_apply, ← hserved]
  rfl

/-! ### A stretch of picks -/

/-- **A stretch of picks under one list of RTTs** returns, and its picks are the counts. -/
theorem trace_serving (h : Serving rtts p s) (hne : rtts ≠ []) {views : List PoolView}
    (hviews : ∀ v ∈ views, v.rtts = rtts)
    (hfits : 1000 * (∑ i ∈ Finset.range rtts.length, p i + views.length) < 2 ^ 64) :
    ∃ outs s', trace (pick .release) s views = .ok (outs, s') ∧ outs.length = views.length ∧
      (∀ b ∈ outs, b < rtts.length) ∧ Serving rtts (fun i => p i + outs.count i) s' ∧
      ∑ i ∈ Finset.range rtts.length, (p i + outs.count i) =
        ∑ i ∈ Finset.range rtts.length, p i + outs.length := by
  refine trace_rule (I := fun outs s => (∀ b ∈ outs, b < rtts.length) ∧
    Serving rtts (fun i => p i + outs.count i) s ∧
    ∑ i ∈ Finset.range rtts.length, (p i + outs.count i) =
      ∑ i ∈ Finset.range rtts.length, p i + outs.length) ⟨by simp, by simpa using h, by simp⟩ ?_
  rintro outs s view hview hlt ⟨hrange, hserving, hsum⟩
  obtain ⟨b, s', hpick, hb, -, hnext⟩ := pick_serving hserving (hviews view hview) hne
    (by rw [hsum]; omega)
  refine ⟨b, s', hpick, fun x hx => ?_, serve_add_count outs ▸ hnext, ?_⟩
  · rcases List.mem_append.mp hx with hx | hx
    · exact hrange x hx
    · rw [List.mem_singleton.mp hx]
      exact hb
  · have hserved := sum_serve (p := fun i => p i + outs.count i) hb
    rw [serve_add_count] at hserved
    rw [hserved, hsum, List.length_append]
    rfl

/-- After `k` rounds of all the weights each slot was picked `k` times its weight. -/
theorem Serving.exact {k i : ℕ} (h : Serving rtts p s)
    (hsum : ∑ i ∈ Finset.range rtts.length, p i = k * totalWeight rtts) (hi : i < rtts.length) :
    p i = k * weightAt rtts i := by
  rw [← sum_weightAt] at hsum
  have hexact := fair_zero.exact (fun _ => weightAt_pos) h.fair (by simpa using hsum) hi
  rwa [Nat.zero_add] at hexact

end WeightedRoundRobin

/-! ### A balancer with a fixed pool -/

namespace World

open WeightedRoundRobin

variable {env : Env}

/-- The picks `p` since `w₀` are the picks of the weighted round-robin. -/
def Shared (w₀ : World Builtin) (p : ℕ → ℕ) (w : World Builtin) : Prop :=
  ∃ s, w.lb.strategy = .weightedRoundRobin s ∧
    Serving (w₀.lb.metrics.map TunnelMetrics.rtt) p s

/-- A dial that reaches the strategy is one more pick of the least-served slot. -/
theorem Shared.routed {w₀ w w' : World Builtin} {p : ℕ → ℕ} {idx : ℕ} (h : Shared w₀ p w)
    (hcounted : Counted w₀ p w) (hidx : RoutedTo env idx w w')
    (hfits : 1000 * ∑ i ∈ Finset.range w₀.lb.metrics.length, p i < 2 ^ 64) :
    Shared w₀ (serve p idx) w' := by
  obtain ⟨s, hs, hserving⟩ := h
  obtain ⟨addr, draw, hpick⟩ := hidx.pick
  have hrtts : PoolView.rtts ⟨addr, w.lb.metrics⟩ = w₀.lb.metrics.map TunnelMetrics.rtt :=
    hcounted.rtts
  have hne : w₀.lb.metrics.map TunnelMetrics.rtt ≠ [] := by
    rw [← hcounted.rtts]
    exact List.ne_nil_of_length_pos (by rw [List.length_map]; exact Nat.zero_lt_of_lt hidx.lt)
  obtain ⟨b, s', hb, -, -, hnext⟩ := pick_serving hserving hrtts hne (by simpa using hfits)
  rw [hs] at hpick
  obtain ⟨⟨b', s''⟩, hb', hret⟩ := bind_eq_ok.mp hpick
  cases hb'.symm.trans hb
  obtain ⟨rfl, hstrategy⟩ := Prod.mk.inj (Except.ok.inj hret)
  exact ⟨s', hstrategy.symm, hnext⟩

/-- Any other event makes no pick: this strategy does nothing at a report. -/
theorem Shared.heard {w₀ w w' : World Builtin} {p : ℕ → ℕ} (h : Shared w₀ p w)
    (hheard : Heard w.lb.strategy w'.lb.strategy) : Shared w₀ p w' := by
  obtain ⟨s, hs, hserving⟩ := h
  refine ⟨s, ?_, hserving⟩
  rw [hs] at hheard
  exact hheard.eq_of_deaf (fun _ => rfl) fun _ => rfl

/-- **The dials of a balancer with a fixed pool.** With a new weighted round-robin, each dial
that reaches the strategy is one of its picks, over every interleaving. -/
theorem run_shared {w₀ w : World Builtin} {es : List (Event Builtin)}
    (hsync : Sync w₀) (hnew : w₀.lb.strategy = .weightedRoundRobin .new)
    (hne : w₀.lb.metrics ≠ []) (hrun : run (step env) w₀ es = .ok w)
    (hpool : Throughout (step env) (fun w => w.tags = w₀.tags) w₀ es)
    (hset : ∀ e ∈ es, ∀ strategy, e ≠ .setStrategy strategy)
    (hfits : 1000 * count (step env) reachesStrategy w₀ es < 2 ^ 64) :
    ∃ p, Counted w₀ p w ∧ Shared w₀ p w ∧
      ∑ i ∈ Finset.range w₀.lb.metrics.length, p i = count (step env) reachesStrategy w₀ es := by
  have hzero : Shared w₀ (fun _ => 0) w₀ :=
    ⟨.new, hnew, serving_zero fun h => hne (List.map_eq_nil_iff.mp h.symm)⟩
  refine run_counted hsync hzero ?_ ?_ hrun hpool (along_of_forall hset) le_rfl
  · intro p w w' idx hcounted hshared hlt hidx
    exact hshared.routed hcounted hidx (by omega)
  · intro p w e w' _ hshared hset hs hother
    exact hshared.heard (hother.heard hset)

end World

namespace WeightedRoundRobin

/-- **Exact proportional shares.** For every non-empty list of RTTs, with weights in `1..1000`:

* the picks a `WeightedRoundRobin` makes under it since its rebuild, whatever its state
  before, satisfy the two-index inequality, and after `k` times the total weight each slot
  was picked `k` times its weight;
* in a balancer with these RTTs, a fixed pool and a new `WeightedRoundRobin`, after that many
  dials that reached the strategy, in any interleaving and with any outcomes, the dial count
  of each slot has grown by `k` times its weight. -/
theorem shares_exact (rtts : List (Option Duration)) (hne : rtts ≠ []) :
    (∀ rtt ∈ rtts, 1 ≤ weight rtt ∧ weight rtt ≤ 1000) ∧
    (∀ (s : WeightedRoundRobin) (views : List PoolView), s.rtts ≠ rtts →
      (∀ v ∈ views, v.rtts = rtts) → 1000 * views.length < 2 ^ 64 →
      ∃ outs s', trace (pick .release) s views = .ok (outs, s') ∧
        outs.length = views.length ∧ (∀ i ∈ outs, i < rtts.length) ∧
        (∀ i < rtts.length, ∀ j < rtts.length, 1 ≤ outs.count i →
          (outs.count i - 1) * weightAt rtts j ≤
            outs.count j * weightAt rtts i) ∧
        ∀ k, views.length = k * totalWeight rtts → ∀ i < rtts.length,
          outs.count i = k * weightAt rtts i) ∧
    (∀ (env : Env) (w₀ w : World Builtin) (es : List (Event Builtin)) (k : ℕ),
      Reaches (World.step env) World.Initial w₀ →
      w₀.lb.strategy = .weightedRoundRobin .new →
      w₀.lb.metrics.map TunnelMetrics.rtt = rtts →
      run (World.step env) w₀ es = .ok w →
      Throughout (World.step env) (fun w => w.tags = w₀.tags) w₀ es →
      (∀ e ∈ es, ∀ strategy, e ≠ .setStrategy strategy) →
      count (World.step env) World.reachesStrategy w₀ es = k * totalWeight rtts →
      1000 * (k * totalWeight rtts) < 2 ^ 64 →
      ∀ (i : ℕ) (m₀ : TunnelMetrics), w₀.lb.metrics[i]? = some m₀ →
        ∃ m, w.lb.metrics[i]? = some m ∧ m.totalDials =
          m₀.totalDials + UInt64.ofNat (k * weightAt rtts i)) := by
  have hpos : ∀ i < rtts.length, 0 < weightAt rtts i := fun i hi => weightAt_pos hi
  refine ⟨fun rtt _ => ⟨weight_pos rtt, weight_le rtt⟩, fun s views hs hviews hfits => ?_, ?_⟩
  · obtain ⟨outs, s', htrace, hlen, hrange, hserving, hsum⟩ :=
      trace_serving (serving_zero hs) hne hviews (by simpa using hfits)
    simp only [Nat.zero_add, Finset.sum_const_zero] at hserving hsum
    refine ⟨outs, s', htrace, hlen, hrange, fun i hi j hj => hserving.fair.cross hpos hi hj,
      fun k hk i hi => hserving.exact ?_ hi⟩
    rw [hsum, hlen, hk]
  · rintro env w₀ w es k hreach hnew rfl hrun hpool hset hcount hfits i m₀ hm₀
    obtain ⟨p, hcounted, ⟨s, -, hserving⟩, hsum⟩ := World.run_shared (World.reaches_sync hreach)
      hnew (by simpa using hne) hrun hpool hset (by rw [hcount]; exact hfits)
    have hi : i < w₀.lb.metrics.length := (List.getElem?_eq_some_iff.mp hm₀).1
    have hp := hserving.exact (by rw [List.length_map, hsum, hcount]) (i := i) (by simpa using hi)
    obtain ⟨m, hm, hdials⟩ := hcounted.totalDials hm₀
    exact ⟨m, hm, hp ▸ hdials⟩

/-- RTTs of 333 ms, 1 s and 1 s. -/
def threeSeeds : List TunnelMetrics :=
  [{ rtt := some (.fromMillis 333) }, { rtt := some (.fromMillis 1000) },
    { rtt := some (.fromMillis 1000) }]

/-- Their weights are 3, 1 and 1: five picks serve them so, and so do five dials, all of them
still in progress. -/
theorem shares_exact_five :
    (∃ outs s', trace (pick .release) .new (List.replicate 5 ⟨"h", threeSeeds⟩) = .ok (outs, s') ∧
      outs.count 0 = 1 * 3 ∧ outs.count 1 = 1 * 1 ∧ outs.count 2 = 1 * 1) ∧
    ∃ w, run (World.step Env.plain) (World.ofSeeds threeSeeds (Builtin.weightedRoundRobin .new))
        (List.replicate 5 (.start "a:1" none none 0)) = .ok w ∧
      ∃ m, w.lb.metrics[0]? = some m ∧ m.totalDials = 0 + UInt64.ofNat (1 * 3) := by
  have hne : threeSeeds.map TunnelMetrics.rtt ≠ [] := by decide
  obtain ⟨-, hpicks, hdials⟩ := shares_exact (threeSeeds.map TunnelMetrics.rtt) hne
  constructor
  · obtain ⟨outs, s', htrace, -, -, -, hcount⟩ := hpicks .new
      (List.replicate 5 ⟨"h", threeSeeds⟩) (by decide)
      (fun v hv => by rw [List.eq_of_mem_replicate hv]; rfl) (by decide)
    have hcount := hcount 1 (by decide)
    exact ⟨outs, s', htrace, hcount 0 (by decide), hcount 1 (by decide), hcount 2 (by decide)⟩
  · have hends : ends (World.step Env.plain) (fun _ => true)
        (World.ofSeeds threeSeeds (Builtin.weightedRoundRobin .new))
        (List.replicate 5 (.start "a:1" none none 0)) = true := by decide
    obtain ⟨w, hrun, -⟩ := exists_run_of_ends hends
    refine ⟨w, hrun, ?_⟩
    exact hdials Env.plain _ w _ 1
      ⟨_, [], World.initial_ofSeeds (by decide) (Builtin.weightedRoundRobin .new), rfl⟩ rfl rfl hrun
      (by decide) (fun e he => by rw [List.eq_of_mem_replicate he]; nofun) (by decide) (by decide)
      0 _ rfl

end WeightedRoundRobin

end RotaLb
