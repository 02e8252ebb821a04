import RotaLb.FixedPool
import RotaLb.Refinement
import RotaLb.ScanOrder

/-!
# Where Dials Are Routed

`startedAt` reads off an event the row of the dial it starts. Over a run of a balancer whose pool
stays the same, `HashByAddr`, `LowestRtt` and `Sticky` make of it a function of the dialed
addresses alone: the balancer writes no round-trip time, and nothing else that these strategies
read ever changes. Failed dials, drains and the dials before it have no influence on where a dial
goes, so a backend that fails every dial is given the same dials as one that serves them.

## Main results

* `startedAt_cases`: an event starts no dial, or one at the row the strategy picks.
* `Builtin.fixedRow_pick`: a pick leaves the row of every address as it was.
* `static_routes`: **the rows of a whole run in closed form**.
-/

namespace RotaLb

open Rust Scan StepSystem

namespace World

section Events

variable {σ : Type} [BalanceStrategy σ] {env : Env} {w w' : World σ}

/-- The rows that the event routes dials to. -/
def startedAt (env : Env) (w : World σ) (e : Event σ) : List ℕ :=
  match w.step env e with
  | .ok w' => (w'.dials.drop w.dials.length).map Dial.index
  | .error _ => []

/-- A routed dial is counted, so the world is another one. -/
theorem RoutedTo.ne {idx : ℕ} (hr : RoutedTo env idx w w') : w' ≠ w := by
  rintro rfl
  have hdials := congrArg (fun ms => ms[idx]?.map TunnelMetrics.totalDials) hr.metrics
  simp [List.getElem?_eq_getElem hr.lt, LoadBalancer.countDial] at hdials

/-- A dial that gets as far as the strategy is routed to the row it picks. -/
theorem step_start_routed {addr : String} {timeout : Option Duration}
    {policy : Option RetryPolicy} {draw : ℕ}
    (hreaches : w.reachesStrategy (.start addr timeout policy draw) = true)
    (hs : w.step env (.start addr timeout policy draw) = .ok w') :
    ∃ idx strategy d, BalanceStrategy.pick env draw w.lb.strategy ⟨addr, w.lb.metrics⟩ =
        .ok (idx, strategy) ∧ idx < w.lb.metrics.length ∧ d.index = idx ∧
      d.phase = .awaitDial 1 ∧ w' = w.afterRoute idx strategy d := by
  obtain ⟨hno, -⟩ | ⟨-, idx, hr⟩ := step_start_cases hs
  · rw [hreaches] at hno
    cases hno
  · cases step_effect hs with
    | idle => exact absurd rfl hr.ne
    | routed _ hpick _ hlt _ hindex _ hphase =>
        exact ⟨_, _, _, hpick, hlt, hindex, hphase, rfl⟩
    | entered _ he => rcases he with ⟨he, -⟩ | ⟨_, he, -⟩ <;> cases he
    | moved he => rcases he with ⟨_, _, _, he⟩ | he <;> cases he
    | stale he => rcases he with he | he <;> cases he
    | left _ he => cases he

/-- Only a start adds a dial. -/
theorem dials_length_le {e : Event σ} (hs : w.step env e = .ok w')
    (hstart : ∀ addr timeout policy draw, e ≠ .start addr timeout policy draw) :
    w'.dials.length ≤ w.dials.length := by
  cases step_effect hs with
  | routed => exact absurd rfl (hstart _ _ _ _)
  | moved | succeeded | errored => simp [goto, onMetrics]
  | connected | returned | cancelled => exact List.length_eraseIdx_le _ _
  | idle | dropped | stale | checked | written | contended | entered | left | replaced | drained
  | undrained | strategySet => exact le_rfl

/-- **An event starts no dial, or one at the row the strategy picks.** -/
theorem startedAt_cases {e : Event σ} (hs : w.step env e = .ok w') :
    (w.reachesStrategy e = false ∧ w.startedAt env e = [] ∧
      ((∀ addr timeout policy draw, e ≠ .start addr timeout policy draw) ∨ w' = w)) ∨
    ∃ addr timeout policy draw idx strategy d, e = .start addr timeout policy draw ∧
      w.reachesStrategy e = true ∧ BalanceStrategy.pick env draw w.lb.strategy
        ⟨addr, w.lb.metrics⟩ = .ok (idx, strategy) ∧ idx < w.lb.metrics.length ∧ d.index = idx ∧
      d.phase = .awaitDial 1 ∧ w' = w.afterRoute idx strategy d ∧ w.startedAt env e = [idx] := by
  by_cases hstart : ∃ addr timeout policy draw, e = .start addr timeout policy draw
  · obtain ⟨addr, timeout, policy, draw, rfl⟩ := hstart
    cases hreaches : w.reachesStrategy (.start addr timeout policy draw) with
    | false =>
        obtain ⟨-, rfl⟩ | ⟨hyes, -⟩ := step_start_cases hs
        · exact .inl ⟨rfl, by simp [startedAt, hs], .inr rfl⟩
        · rw [hreaches] at hyes
          cases hyes
    | true =>
        obtain ⟨idx, strategy, d, hpick, hlt, hindex, hphase, rfl⟩ := step_start_routed hreaches hs
        refine .inr ⟨addr, timeout, policy, draw, idx, strategy, d, rfl, rfl, hpick, hlt, hindex,
          hphase, rfl, ?_⟩
        simp [startedAt, hs, afterRoute, hindex]
  · push Not at hstart
    refine .inl ⟨?_, ?_, .inl hstart⟩
    · cases e with
      | start addr timeout policy draw => exact absurd rfl (hstart addr timeout policy draw)
      | _ => rfl
    · simp [startedAt, hs, List.drop_eq_nil_of_le (dials_length_le hs hstart)]

/-- A pool that stays the same keeps its round-trip times. -/
theorem rtts_of_step {e : Event σ} (hsync : Sync w) (hs : w.step env e = .ok w')
    (htags : w'.tags = w.tags) :
    w'.lb.metrics.map TunnelMetrics.rtt = w.lb.metrics.map TunnelMetrics.rtt := by
  by_cases hstart : ∃ addr timeout policy draw, e = .start addr timeout policy draw
  · obtain ⟨addr, timeout, policy, draw, rfl⟩ := hstart
    obtain ⟨-, rfl⟩ | ⟨-, idx, hr⟩ := step_start_cases hs
    · rfl
    · rw [hr.metrics]
      exact Keyed.map_modify_of_absorb fun _ => rfl
  · have hother := step_other hsync hs htags fun addr timeout policy draw he =>
      hstart ⟨addr, timeout, policy, draw, he⟩
    have hfst := congrArg (List.map Prod.fst) hother.records
    rw [List.map_map, List.map_map] at hfst
    exact hfst

end Events

end World

/-! ### Rows that do not change -/

/-- The lowest round-trip time is found by the round-trip times alone. -/
theorem LowestRtt.pick_congr {view view' : PoolView}
    (hrtts : view'.metrics.map TunnelMetrics.rtt = view.metrics.map TunnelMetrics.rtt) :
    LowestRtt.pick view' = LowestRtt.pick view := by
  have hlen : view'.len = view.len := by simpa [PoolView.len] using congrArg List.length hrtts
  have hkeys : keyAt TunnelMetrics.rttOrMax view'.metrics =
      keyAt TunnelMetrics.rttOrMax view.metrics := by
    funext i
    have hrow := congrArg (fun rtts => (rtts[i]?.getD none).getD Duration.MAX) hrtts
    simp only [List.getElem?_map] at hrow
    simp only [keyAt, TunnelMetrics.rttOrMax, List.getD_eq_getElem?_getD]
    have hread : ∀ x : Option TunnelMetrics, (x.getD default).rtt.getD Duration.MAX =
        ((x.map TunnelMetrics.rtt).getD none).getD .MAX := by
      intro x
      cases x <;> rfl
    rw [hread, hread, hrow]
  by_cases hv : 0 < view.len
  · have hpick := LowestRtt.pick_isFirstMin (hlen ▸ hv : 0 < view'.len)
    rw [hkeys, hlen] at hpick
    exact hpick.unique (LowestRtt.pick_isFirstMin hv)
  · have hnil : view.metrics = [] := List.length_eq_zero_iff.mp (Nat.eq_zero_of_not_pos hv)
    have hnil' : view'.metrics = [] :=
      List.length_eq_zero_iff.mp (hlen.trans (Nat.eq_zero_of_not_pos hv))
    rw [LowestRtt.pick, LowestRtt.pick, hnil, hnil']

namespace Builtin

/-- The row that `HashByAddr`, `LowestRtt` and `Sticky` give an address. -/
def fixedRow (env : Env) (s : Builtin) (view : PoolView) : Option ℕ :=
  match s with
  | hashByAddr => some ((env.finish view.dialAddr).toNat % view.len)
  | lowestRtt => some (LowestRtt.pick view)
  | sticky s => some (s.pick view).1
  | _ => none

/-- The row of an address depends on the round-trip times alone. -/
theorem fixedRow_congr {env : Env} {s : Builtin} {view view' : PoolView}
    (hrtts : view'.metrics.map TunnelMetrics.rtt = view.metrics.map TunnelMetrics.rtt)
    (haddr : view'.dialAddr = view.dialAddr) : s.fixedRow env view' = s.fixedRow env view := by
  have hlen : view'.len = view.len := by simpa [PoolView.len] using congrArg List.length hrtts
  cases s with
  | hashByAddr => rw [fixedRow, fixedRow, hlen, haddr]
  | lowestRtt => exact congrArg some (LowestRtt.pick_congr hrtts)
  | sticky s =>
      obtain ⟨pinned⟩ := s
      cases pinned with
      | some i => exact congrArg (fun n => some (min i (n - 1))) hlen
      | none => exact congrArg some (LowestRtt.pick_congr hrtts)
  | _ => rfl

/-- The strategy picks the row it gives the address. -/
theorem fixedRow_eq_of_pick {env : Env} {draw idx row : ℕ} {s s' : Builtin} {view : PoolView}
    (hv : 0 < view.len) (hrow : s.fixedRow env view = some row)
    (hpick : s.pick .release env draw view = .ok (idx, s')) : row = idx := by
  cases s with
  | hashByAddr =>
      have hfits : tryFrom 64 (env.finish view.dialAddr).toNat =
          some (env.finish view.dialAddr).toNat := if_pos (UInt64.toNat_lt _)
      obtain ⟨i, hi, hret⟩ := bind_eq_ok.mp hpick
      rw [HashByAddr.pick, hfits, Option.getD_some, rem_of_pos hv] at hi
      cases hret
      cases hi
      exact (Option.some.inj hrow).symm
  | lowestRtt | sticky =>
      cases hpick
      exact (Option.some.inj hrow).symm
  | _ => cases hrow

/-- **A pick leaves the row of every address as it was.** -/
theorem fixedRow_pick {env : Env} {draw idx row : ℕ} {s s' : Builtin} {view view' : PoolView}
    (hv : 0 < view'.len) (hrow : s.fixedRow env view' = some row)
    (hpick : s.pick .release env draw view = .ok (idx, s'))
    (hrtts : view.metrics.map TunnelMetrics.rtt = view'.metrics.map TunnelMetrics.rtt) :
    s'.fixedRow env view' = some row := by
  cases s with
  | hashByAddr =>
      obtain ⟨i, -, hret⟩ := bind_eq_ok.mp hpick
      cases hret
      exact hrow
  | lowestRtt =>
      cases hpick
      exact hrow
  | sticky s =>
      cases hpick
      obtain ⟨pinned⟩ := s
      cases pinned with
      | some i => exact hrow
      | none =>
          -- the first pick pins the row that is then given to every address
          have hlt : LowestRtt.pick view' < view'.len := (LowestRtt.pick_isFirstMin hv).lt
          have hpin : LowestRtt.pick view = LowestRtt.pick view' := LowestRtt.pick_congr hrtts
          have hmin : min (LowestRtt.pick view) (view'.len - 1) = LowestRtt.pick view' := by
            rw [hpin]
            omega
          exact (congrArg some hmin).trans hrow
  | _ => cases hrow

/-- The three strategies do nothing at a report. -/
theorem eq_of_heard {env : Env} {s s' : Builtin} {view : PoolView} {row : ℕ}
    (hrow : s.fixedRow env view = some row) (hheard : Heard s s') : s' = s := by
  refine hheard.eq_of_deaf (fun _ => rfl) fun _ => ?_
  cases s with
  | failover => cases hrow
  | _ => rfl

end Builtin

namespace World

variable {env : Env} {w₀ w w' : World Builtin}

/-- The row of the dial that the event starts, if its strategy gives the address a fixed one. -/
def fixedRoute (env : Env) (w : World Builtin) : Event Builtin → Option ℕ
  | .start addr timeout policy draw =>
    if w.reachesStrategy (.start addr timeout policy draw) then
      w.lb.strategy.fixedRow env ⟨addr, w.lb.metrics⟩
    else none
  | _ => none

/-- Every address has the row it had in `w₀`. -/
structure Static (env : Env) (w₀ w : World Builtin) : Prop where
  sync : Sync w
  tags : w.tags = w₀.tags
  rtts : w.lb.metrics.map TunnelMetrics.rtt = w₀.lb.metrics.map TunnelMetrics.rtt
  rows : ∀ addr, ∃ row, w₀.lb.strategy.fixedRow env ⟨addr, w₀.lb.metrics⟩ = some row ∧
    w.lb.strategy.fixedRow env ⟨addr, w₀.lb.metrics⟩ = some row

/-- The same dials get as far as the strategy. -/
theorem Static.reachesStrategy (h : Static env w₀ w) (e : Event Builtin) :
    w.reachesStrategy e = w₀.reachesStrategy e := by
  have hlen := congrArg List.length h.tags
  simp only [World.tags, List.length_map] at hlen
  have hempty : w.lb.backends.isEmpty = w₀.lb.backends.isEmpty := by
    rw [Bool.eq_iff_iff, List.isEmpty_iff_length_eq_zero, hlen, List.isEmpty_iff_length_eq_zero]
  cases e with
  | start => simp [World.reachesStrategy, hempty]
  | _ => rfl

/-- **One event** starts a dial at the row of its address, or none, and leaves the rows of all
addresses as they were. -/
theorem Static.step {e : Event Builtin} (h : Static env w₀ w) (hs : w.step env e = .ok w')
    (htags : w'.tags = w₀.tags) (hset : ∀ strategy, e ≠ .setStrategy strategy) :
    w.startedAt env e = (w₀.fixedRoute env e).toList ∧ Static env w₀ w' := by
  have htags' := htags.trans h.tags.symm
  have hsync := step_sync h.sync hs
  have hrtts := (rtts_of_step h.sync hs htags').trans h.rtts
  rcases startedAt_cases hs with ⟨hreaches, hnone, hother⟩ |
    ⟨addr, timeout, policy, draw, idx, strategy, d, rfl, hreaches, hpick, hlt, -, -, rfl, hat⟩
  · constructor
    · rw [h.reachesStrategy] at hreaches
      rw [hnone]
      cases e with
      | start => simp [fixedRoute, hreaches]
      | _ => rfl
    · rcases hother with hstart | rfl
      · have hheard := (step_other h.sync hs htags' hstart).heard hset
        refine ⟨hsync, htags, hrtts, fun addr => ?_⟩
        obtain ⟨row, hrow₀, hrow⟩ := h.rows addr
        exact ⟨row, hrow₀, by rwa [Builtin.eq_of_heard hrow hheard]⟩
      · exact h
  · have hv : 0 < PoolView.len ⟨addr, w.lb.metrics⟩ := Nat.zero_lt_of_lt hlt
    have hlen := congrArg List.length h.rtts
    simp only [List.length_map] at hlen
    constructor
    · obtain ⟨row, hrow₀, hrow⟩ := h.rows addr
      have hsame : w.lb.strategy.fixedRow env ⟨addr, w.lb.metrics⟩ =
          w.lb.strategy.fixedRow env ⟨addr, w₀.lb.metrics⟩ := Builtin.fixedRow_congr h.rtts rfl
      rw [h.reachesStrategy] at hreaches
      rw [hat, fixedRoute, if_pos hreaches, hrow₀,
        Builtin.fixedRow_eq_of_pick hv (hsame.trans hrow) hpick]
      rfl
    · refine ⟨hsync, htags, hrtts, fun addr' => ?_⟩
      obtain ⟨row, hrow₀, hrow⟩ := h.rows addr'
      have hv' : 0 < PoolView.len ⟨addr', w₀.lb.metrics⟩ := Nat.zero_lt_of_lt (hlen ▸ hlt)
      exact ⟨row, hrow₀, Builtin.fixedRow_pick hv' hrow hpick h.rtts⟩

/-- **Static routes.** In a balancer with a fixed pool and `HashByAddr`, `LowestRtt` or `Sticky`,
the rows that the dials of a run are routed to are those that the addresses have at the beginning,
in the order of the dials: whatever becomes of the dials, in every interleaving. -/
theorem static_routes {es : List (Event Builtin)} (hreach : Reaches (step env) Initial w₀)
    (hstrategy : w₀.lb.strategy = .hashByAddr ∨ w₀.lb.strategy = .lowestRtt ∨
      ∃ s, w₀.lb.strategy = .sticky s) (hrun : run (step env) w₀ es = .ok w)
    (hpool : Throughout (step env) (fun w => w.tags = w₀.tags) w₀ es)
    (hset : ∀ e ∈ es, ∀ strategy, e ≠ .setStrategy strategy) :
    gather (step env) (startedAt env) w₀ es = es.filterMap (w₀.fixedRoute env) := by
  have hrow : ∀ addr, ∃ row, w₀.lb.strategy.fixedRow env ⟨addr, w₀.lb.metrics⟩ = some row := by
    intro addr
    rcases hstrategy with heq | heq | ⟨s, heq⟩
    all_goals
      rw [heq]
      exact ⟨_, rfl⟩
  have hstatic : Static env w₀ w₀ := by
    refine ⟨reaches_sync hreach, rfl, rfl, fun addr => ?_⟩
    obtain ⟨row, hrow⟩ := hrow addr
    exact ⟨row, hrow, hrow⟩
  refine gather_eq_filterMap (I := Static env w₀) ?_ hstatic
    (hpool.along.and (along_of_forall hset)) hrun
  rintro w e w' hI ⟨htags, hset⟩ hs
  exact hI.step hs (htags w' hs) hset

/-- An environment that hashes an address to its length. -/
def lengthHashes : Env :=
  ⟨fun addr => UInt64.ofNat addr.length, Env.plain.genRange, Env.plain.genRange_lt⟩

/-- A dial that fails, a drain, a connection that is dropped and an address that is refused lie
between the dials. -/
def unmovedRun : List (Event Builtin) :=
  Event.failing 0 ++ [.drainBackend 1] ++ Event.connecting 0 ++
    [.start "ab:1" none none 0, .drop 0, .start "ab" none none 0, .start "a:1" none none 0]

theorem static_routes_unmovedRun :
    gather (step lengthHashes) (startedAt lengthHashes) (ofSize 2 Builtin.hashByAddr) unmovedRun =
      [1, 1, 0, 1] ∧
    gather (step Env.plain) (startedAt Env.plain) (ofSize 2 (Builtin.sticky .new)) unmovedRun =
      [0, 0, 0, 0] := by
  have hends : ends (step lengthHashes) (fun _ => true) (ofSize 2 Builtin.hashByAddr)
      unmovedRun = true := by decide
  have hends' : ends (step Env.plain) (fun _ => true) (ofSize 2 (Builtin.sticky .new))
      unmovedRun = true := by decide
  obtain ⟨w, hrun, -⟩ := exists_run_of_ends hends
  obtain ⟨w', hrun', -⟩ := exists_run_of_ends hends'
  have hset : ∀ e ∈ unmovedRun, ∀ strategy, e ≠ .setStrategy strategy := by
    simp [unmovedRun, Event.failing, Event.connecting]
  constructor
  · rw [static_routes ⟨_, [], initial_ofSize Nat.two_pos _, rfl⟩ (.inl rfl) hrun (by decide) hset]
    decide
  · rw [static_routes ⟨_, [], initial_ofSize Nat.two_pos _, rfl⟩ (.inr (.inr ⟨_, rfl⟩)) hrun'
      (by decide) hset]
    decide

end World

end RotaLb
