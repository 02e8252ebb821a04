import RotaLb.Apportion
import RotaLb.Slots

/-!
# A Pool That Stays the Same

While no reconfiguration changes the pool, a dial that gets as far as the strategy is counted
in the slot the strategy picked, and nothing else touches the dial counts or the round-trip
times: `Counted w₀ p w` says that since `w₀` slot `i` was routed `p i` dials. Between its picks
the strategy hears reports at most, unless it is exchanged.

## Main results

* `step_start_cases`: a dial that does not reach the strategy changes nothing; one that does is
  routed to the slot it picks.
* `step_other`: what any other event leaves alone.
* `run_counted`: **the induction rule of a fixed pool** — what every routed dial and every
  other event carries over holds at the end of the run, with the dials counted slot by slot.
-/

namespace RotaLb

open Rust StepSystem Apportion

variable {σ : Type}

/-! ### Dials by slot -/

namespace World

/-- The event is a dial that gets as far as the strategy. -/
def reachesStrategy (w : World σ) : Event σ → Bool
  | .start addr _ _ _ => (validateDialAddr addr).isOk && !w.lb.backends.isEmpty
  | _ => false

/-- Since `w₀` the pool is the same and slot `i` was routed `p i` dials. -/
structure Counted (w₀ : World σ) (p : ℕ → ℕ) (w : World σ) : Prop where
  sync : Sync w
  tags : w.tags = w₀.tags
  records : ∀ i : ℕ, w.lb.metrics[i]?.map TunnelMetrics.record =
    w₀.lb.metrics[i]?.map fun m => (m.rtt, m.totalDials + UInt64.ofNat (p i))

variable {w₀ w : World σ} {p : ℕ → ℕ}

/-- No dials yet. -/
theorem counted_zero (h : Sync w₀) : Counted w₀ (fun _ => 0) w₀ := by
  refine ⟨h, rfl, fun i => ?_⟩
  have hzero : ∀ n : UInt64, n + UInt64.ofNat 0 = n := by simp
  simp only [hzero]
  rfl

/-- The RTTs are those of `w₀`. -/
theorem Counted.rtts (h : Counted w₀ p w) :
    w.lb.metrics.map TunnelMetrics.rtt = w₀.lb.metrics.map TunnelMetrics.rtt := by
  refine List.ext_getElem? fun i => ?_
  have := congrArg (Option.map Prod.fst) (h.records i)
  simpa [TunnelMetrics.record, Function.comp_def] using this

/-- There are as many slots as in `w₀`. -/
theorem Counted.length (h : Counted w₀ p w) : w.lb.metrics.length = w₀.lb.metrics.length := by
  simpa using congrArg List.length h.rtts

/-- What the dial count of a slot was and is. -/
theorem Counted.totalDials (h : Counted w₀ p w) {i : ℕ} {m₀ : TunnelMetrics}
    (hm₀ : w₀.lb.metrics[i]? = some m₀) :
    ∃ m, w.lb.metrics[i]? = some m ∧ m.totalDials = m₀.totalDials + UInt64.ofNat (p i) := by
  have hrecord := h.records i
  rw [hm₀, Option.map_some] at hrecord
  obtain ⟨m, hm, heq⟩ := Option.map_eq_some_iff.mp hrecord
  exact ⟨m, hm, congrArg Prod.snd heq⟩

/-! ### Reconfiguration changes the pool -/

/-- An addition changes the pool. -/
theorem tags_added_ne {w : World σ} {id : Option String} {ptr : ℕ} :
    (w.added id (w.lb.pushBackend id ⟨w.fresh, ptr⟩)).tags ≠ w.tags := by
  intro htags
  rw [tags_added] at htags
  exact absurd (congrArg List.length htags) (by simp)

/-- A removal changes the pool. -/
theorem tags_afterLeave_ne {w : World σ} {index : ℕ} {b : Backend}
    (hb : w.lb.backends[index]? = some b) : (w.afterLeave index b).tags ≠ w.tags := by
  intro htags
  have hlt := (List.getElem?_eq_some_iff.mp (tags_getElem? hb)).1
  rw [tags_afterLeave] at htags
  have hlen := congrArg List.length htags
  rw [List.length_eraseIdx_of_lt hlt] at hlen
  omega

/-- A replacement changes the pool: its backends are new ones. -/
theorem tags_afterReplace_ne {w : World σ} (hsync : Sync w) {ptrs : List ℕ} (hne : ptrs ≠ [])
    (strategy : Option σ) : (w.afterReplace ptrs strategy).tags ≠ w.tags := by
  intro htags
  rw [tags_afterReplace] at htags
  obtain ⟨ptr, ptrs, rfl⟩ := List.exists_cons_of_ne_nil hne
  refine absurd (hsync.fresh w.fresh ?_) (Nat.lt_irrefl _)
  rw [← htags]
  exact List.mem_range'_1.mpr ⟨le_rfl, by simp⟩

end World

variable [BalanceStrategy σ] {env : Env}

/-! ### One event -/

/-- The strategy stays as it is or hears a report. -/
def Heard (s s' : σ) : Prop :=
  s' = s ∨ ∃ idx, BalanceStrategy.reportSuccess s idx = .ok s' ∨
    BalanceStrategy.reportError s idx = .ok s'

/-- A strategy that does nothing at a report stays as it is. -/
theorem Heard.eq_of_deaf {s s' : σ} (h : Heard s s')
    (hsuccess : ∀ idx, BalanceStrategy.reportSuccess s idx = .ok s)
    (herror : ∀ idx, BalanceStrategy.reportError s idx = .ok s) : s' = s := by
  rcases h with heq | ⟨idx, hreport | hreport⟩
  · exact heq
  · exact Except.ok.inj (hreport.symm.trans (hsuccess idx))
  · exact Except.ok.inj (hreport.symm.trans (herror idx))

namespace World

/-- A dial was routed to slot `idx`. -/
structure RoutedTo (env : Env) (idx : ℕ) (w w' : World σ) : Prop where
  pick : ∃ addr draw, BalanceStrategy.pick env draw w.lb.strategy ⟨addr, w.lb.metrics⟩ =
    .ok (idx, w'.lb.strategy)
  lt : idx < w.lb.metrics.length
  metrics : w'.lb.metrics = w.lb.metrics.modify idx LoadBalancer.countDial

/-- A dial that does not reach the strategy changes nothing; one that does is routed. -/
theorem step_start_cases {w w' : World σ} {addr : String} {timeout : Option Duration}
    {policy : Option RetryPolicy} {draw : ℕ}
    (hs : w.step env (.start addr timeout policy draw) = .ok w') :
    (w.reachesStrategy (.start addr timeout policy draw) = false ∧ w' = w) ∨
      (w.reachesStrategy (.start addr timeout policy draw) = true ∧
        ∃ idx, RoutedTo env idx w w') := by
  rw [step, start, LoadBalancer.beginDial] at hs
  cases hv : validateDialAddr addr with
  | error e =>
      simp only [hv, Except.ok.injEq] at hs
      exact .inl ⟨by simp [reachesStrategy, hv, Except.isOk, Except.toBool], hs.symm⟩
  | ok u =>
      simp only [hv] at hs
      by_cases hempty : w.lb.backends.isEmpty
      · simp only [hempty, if_true, Except.ok.injEq] at hs
        exact .inl ⟨by simp [reachesStrategy, hempty], hs.symm⟩
      · simp only [hempty, Bool.false_eq_true, if_false] at hs
        refine .inr ⟨by simp [reachesStrategy, hv, hempty, Except.isOk, Except.toBool], ?_⟩
        split at hs
        · cases hs
        · rename_i hbegun
          obtain ⟨⟨idx, lb⟩, -, hrest⟩ := bind_eq_ok.mp hbegun
          obtain ⟨b, -, hrest⟩ := bind_eq_ok.mp hrest
          cases hrest
        · rename_i hbegun
          obtain ⟨⟨idx, lb⟩, hbackend, hrest⟩ := bind_eq_ok.mp hbegun
          obtain ⟨b, -, hrest⟩ := bind_eq_ok.mp hrest
          obtain ⟨⟨idx', strategy⟩, hpick, hrest'⟩ := bind_eq_ok.mp hbackend
          obtain ⟨metrics, hm, hrest'⟩ := bind_eq_ok.mp hrest'
          obtain ⟨hlt, rfl⟩ := Vec.modify_eq_ok.mp hm
          cases hrest'
          cases hrest
          cases hs
          exact ⟨_, ⟨_, _, hpick⟩, hlt, rfl⟩

/-- An event that is no dial and leaves the pool as it is. -/
structure Other (w : World σ) (e : Event σ) (w' : World σ) : Prop where
  start : ∀ addr timeout policy draw, e ≠ .start addr timeout policy draw
  tags : w'.tags = w.tags
  records : w'.lb.metrics.map TunnelMetrics.record = w.lb.metrics.map TunnelMetrics.record
  heard : (∀ strategy, e ≠ .setStrategy strategy) → Heard w.lb.strategy w'.lb.strategy

/-- Every other event, in a pool that stays the same, leaves round-trip times and dial counts
alone, and the strategy hears of it by a report at most. -/
theorem step_other {w w' : World σ} {e : Event σ} (hsync : Sync w)
    (hs : w.step env e = .ok w') (htags : w'.tags = w.tags)
    (hstart : ∀ addr timeout policy draw, e ≠ .start addr timeout policy draw) :
    Other w e w' := by
  cases step_effect hs with
  | routed => exact absurd rfl (hstart _ _ _ _)
  | idle | moved | cancelled | stale | checked | contended =>
      exact ⟨hstart, htags, rfl, fun _ => .inl rfl⟩
  | succeeded | errored | dropped | written | drained | undrained =>
      exact ⟨hstart, htags, records_modify fun _ => rfl, fun _ => .inl rfl⟩
  | connected _ _ hreport => exact ⟨hstart, htags, rfl, fun _ => .inr ⟨_, .inl hreport⟩⟩
  | returned _ _ hreport => exact ⟨hstart, htags, rfl, fun _ => .inr ⟨_, .inr hreport⟩⟩
  | entered => exact absurd htags tags_added_ne
  | left _ _ hb => exact absurd htags (tags_afterLeave_ne hb)
  | replaced _ hne => exact absurd htags (tags_afterReplace_ne hsync hne _)
  | strategySet => exact ⟨hstart, htags, rfl, fun hset => absurd rfl (hset _)⟩

/-! ### Whole runs -/

variable {w₀ w w' : World σ} {p : ℕ → ℕ}

/-- A routed dial is counted in its slot. -/
theorem Counted.routed {idx : ℕ} (h : Counted w₀ p w) (hsync : Sync w') (htags : w'.tags = w₀.tags)
    (hidx : RoutedTo env idx w w') : Counted w₀ (serve p idx) w' := by
  refine ⟨hsync, htags, fun i => ?_⟩
  have hrecord := h.records i
  rw [hidx.metrics, List.getElem?_modify]
  by_cases hi : i = idx
  · subst hi
    have hcount := congrArg (Option.map (Prod.map id (· + 1))) hrecord
    simpa [serve_self, TunnelMetrics.record, LoadBalancer.countDial, Function.comp_def,
      UInt64.ofNat_add, UInt64.add_assoc] using hcount
  · simpa [serve_of_ne hi, Ne.symm hi] using hrecord

/-- Any other event counts nothing. -/
theorem Counted.other {e : Event σ} (h : Counted w₀ p w) (hsync : Sync w')
    (hother : Other w e w') : Counted w₀ p w' := by
  refine ⟨hsync, hother.tags.trans h.tags, fun i => ?_⟩
  rw [← h.records i, ← List.getElem?_map, hother.records, List.getElem?_map]

/-- **The induction rule of a fixed pool.** What holds of no dials in `w₀`, every dial routed
carries over to the counts with one more, and every other event keeps, holds at the end of the
run with the dials counted slot by slot. -/
theorem run_counted {I : (ℕ → ℕ) → World σ → Prop} {D : World σ → Event σ → Prop} {N : ℕ}
    {es : List (Event σ)} (hsync : Sync w₀) (hzero : I (fun _ => 0) w₀)
    (hroute : ∀ p w w' idx, Counted w₀ p w → I p w →
      ∑ i ∈ Finset.range w₀.lb.metrics.length, p i < N → RoutedTo env idx w w' →
      I (serve p idx) w')
    (hkeep : ∀ p w e w', Counted w₀ p w → I p w → D w e → w.step env e = .ok w' →
      Other w e w' → I p w')
    (hrun : run (step env) w₀ es = .ok w)
    (hpool : Throughout (step env) (fun w => w.tags = w₀.tags) w₀ es)
    (hD : Along (step env) D w₀ es) (hN : count (step env) reachesStrategy w₀ es ≤ N) :
    ∃ p, Counted w₀ p w ∧ I p w ∧
      ∑ i ∈ Finset.range w₀.lb.metrics.length, p i = count (step env) reachesStrategy w₀ es := by
  -- the bound on the number of dials is a premise of the invariant, for it grows with the run
  have hlast := run_count (n := 0) (R := fun n w => n ≤ N → ∃ p, Counted w₀ p w ∧ I p w ∧
      ∑ i ∈ Finset.range w₀.lb.metrics.length, p i = n)
    (q := reachesStrategy)
    (D := fun w e => (∀ w', w.step env e = .ok w' → w'.tags = w₀.tags) ∧ D w e)
    ?_ ?_ (hpool.along.and hD) hrun
  · rw [Nat.zero_add] at hlast
    exact hlast hN
  · rintro n w e w' hR ⟨htags, hD⟩ hs hbound
    obtain ⟨p, hcounted, hI, hsum⟩ := hR (by omega)
    have hsync' := step_sync hcounted.sync hs
    by_cases hstart : ∃ addr timeout policy draw, e = .start addr timeout policy draw
    · obtain ⟨addr, timeout, policy, draw, rfl⟩ := hstart
      rcases step_start_cases hs with ⟨hreach, rfl⟩ | ⟨hreach, idx, hidx⟩
      · exact ⟨p, hcounted, hI, by rw [hsum, hreach]; rfl⟩
      · have hlt : idx < w₀.lb.metrics.length := hcounted.length ▸ hidx.lt
        rw [hreach, if_pos rfl] at hbound ⊢
        exact ⟨serve p idx, hcounted.routed hsync' (htags w' hs) hidx,
          hroute p w w' idx hcounted hI (by omega) hidx, by rw [sum_serve hlt, hsum]⟩
    · push Not at hstart
      have hreach : w.reachesStrategy e = false := by
        cases e with
        | start addr timeout policy draw => exact absurd rfl (hstart addr timeout policy draw)
        | _ => rfl
      have hother := step_other hcounted.sync hs ((htags w' hs).trans hcounted.tags.symm) hstart
      exact ⟨p, hcounted.other hsync' hother, hkeep p w e w' hcounted hI hD hs hother,
        by rw [hsum, hreach]; rfl⟩
  · exact fun _ => ⟨fun _ => 0, counted_zero hsync, hzero, by simp⟩

end World

end RotaLb
