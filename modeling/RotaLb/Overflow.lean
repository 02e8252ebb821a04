import RotaLb.ScanOrder

/-!
# Strategies under Overflow Checks

A dev build checks the arithmetic that a release build lets wrap. Two of the nine strategies
compute anything that can leave 64 bits: the score of `HealthWeighted`, and the products and
counts of `WeightedRoundRobin`. Where all checks pass, a dev build does what a release build
does; where one fails, the call panics.

`Builtin.PassesChecks` says of a strategy and a view that all checks of a pick pass. For
`WeightedRoundRobin` the products taken by the scan depend on the best index so far, which is
the first minimum of picks over weight among the indices already visited.

## Main results

* `Builtin.pick_refines`, `Builtin.reportError_refines`: **what a dev build returns, a release
  build returns.**
* `HealthWeighted.pick_dev_iff`, `WeightedRoundRobin.pick_dev_iff`: when a dev pick returns.
* `Builtin.pick_dev_iff`: **a dev pick returns exactly when it passes its checks.**
-/

namespace RotaLb

open Rust Scan

/-! ### Dev and release -/

theorem HealthWeighted.score_refines (m : TunnelMetrics) :
    Refines (score .dev m) (score .release m) :=
  (narrow_refines _ _).bind fun _ => (narrow_refines _ _).bind fun _ =>
    (narrow_refines _ _).bind fun _ => narrow_refines _ _

theorem HealthWeighted.pick_refines (view : PoolView) :
    Refines (pick .dev view) (pick .release view) := by
  refine Refines.bind (fun best h => ?_) fun _ => .refl _
  refine forEnumM_mono (fun best i m => ?_) h
  exact (score_refines m).bind fun _ => .refl _

theorem WeightedRoundRobin.leastServed_refines (s : WeightedRoundRobin) :
    Refines (leastServed .dev s) (leastServed .release s) := by
  intro b h
  refine forRangeM_mono (fun best i => ?_) h
  refine (Refines.refl _).bind fun _ => (Refines.refl _).bind fun _ => ?_
  refine (narrow_refines _ _).bind fun _ => ?_
  refine (Refines.refl _).bind fun _ => (Refines.refl _).bind fun _ => ?_
  exact (narrow_refines _ _).bind fun _ => .refl _

theorem WeightedRoundRobin.pick_refines (s : WeightedRoundRobin) (view : PoolView) :
    Refines (s.pick .dev view) (s.pick .release view) := by
  unfold pick
  simp only
  split
  · exact .refl _
  · refine (leastServed_refines _).bind fun _ => (Refines.refl _).bind fun _ => ?_
    exact (narrow_refines _ _).bind fun _ => .refl _

theorem Failover.reportError_refines (s : Failover) (idx : ℕ) :
    Refines (s.reportError .dev idx) (s.reportError .release idx) := by
  unfold reportError
  have hmove : ∀ len : ℕ, Refines
      (if idx = s.primary then do
        let primary ← rem (← Profile.dev.add 64 idx 1) len
        return { s with primary }
      else return s)
      (if idx = s.primary then do
        let primary ← rem (← Profile.release.add 64 idx 1) len
        return { s with primary }
      else return s : Except Panic Failover) := by
    intro len
    split
    · exact (narrow_refines _ _).bind fun _ => .refl _
    · exact .refl _
  simp only
  split
  · exact (Refines.refl _).bind hmove
  · exact (narrow_refines _ _).bind hmove

namespace Builtin

/-- **A dev pick that returns is the release pick.** -/
theorem pick_refines (env : Env) (draw : ℕ) (s : Builtin) (view : PoolView) :
    Refines (pick .dev env draw s view) (pick .release env draw s view) := by
  cases s with
  | weightedRoundRobin s => exact (s.pick_refines view).bind fun _ => .refl _
  | healthWeighted => exact (HealthWeighted.pick_refines view).bind fun _ => .refl _
  | _ => exact .refl _

/-- **A dev report that returns is the release report.** -/
theorem reportError_refines (s : Builtin) (idx : ℕ) :
    Refines (reportError .dev s idx) (reportError .release s idx) := by
  cases s with
  | failover s => exact (s.reportError_refines idx).bind fun _ => .refl _
  | _ => exact .refl _

end Builtin

/-! ### When a dev pick returns -/

namespace HealthWeighted

/-- The sum of the score, before it is brought into 64 bits. -/
def rawScore (m : TunnelMetrics) : ℕ := rttTerm m + penalties m

/-- The score returns exactly when its sum fits: the parts of the sum are smaller. -/
theorem score_dev_iff {m : TunnelMetrics} :
    (∃ x, score .dev m = .ok x) ↔ rawScore m < 2 ^ 64 := by
  have hraw : rawScore m = rttTerm m + m.recentErrors.toNat * ERROR_PENALTY_US
      + m.activeConnections.toNat * LOAD_PENALTY_US := by
    rw [rawScore, penalties, ERROR_PENALTY_US, LOAD_PENALTY_US]
    omega
  constructor
  · rintro ⟨x, hx⟩
    obtain ⟨e, he, hx⟩ := bind_eq_ok.mp hx
    obtain ⟨l, hl, hx⟩ := bind_eq_ok.mp hx
    obtain ⟨t, ht, hx⟩ := bind_eq_ok.mp hx
    obtain ⟨-, rfl⟩ := narrow_dev_eq_ok.mp he
    obtain ⟨-, rfl⟩ := narrow_dev_eq_ok.mp hl
    obtain ⟨-, rfl⟩ := narrow_dev_eq_ok.mp ht
    rw [hraw]
    exact (narrow_dev_eq_ok.mp hx).1
  · intro h
    rw [hraw] at h
    refine exists_bind_eq_ok.mpr ⟨_, narrow_dev_eq_ok.mpr ⟨by omega, rfl⟩, ?_⟩
    refine exists_bind_eq_ok.mpr ⟨_, narrow_dev_eq_ok.mpr ⟨by omega, rfl⟩, ?_⟩
    refine exists_bind_eq_ok.mpr ⟨_, narrow_dev_eq_ok.mpr ⟨?_, rfl⟩, ?_⟩
    · exact lt_of_le_of_lt (Nat.le_add_right _ _) h
    · exact ⟨_, narrow_dev_eq_ok.mpr ⟨h, rfl⟩⟩

/-- A dev pick returns exactly when every score of the view fits. -/
theorem pick_dev_iff {view : PoolView} :
    (∃ i, pick .dev view = .ok i) ↔ ∀ m ∈ view.metrics, rawScore m < 2 ^ 64 := by
  constructor
  · rintro ⟨i, hi⟩ m hm
    obtain ⟨best, hbest, -⟩ := bind_eq_ok.mp hi
    obtain ⟨k, t, t', hround⟩ := forEnumM_rounds hbest hm
    obtain ⟨x, hx, -⟩ := bind_eq_ok.mp hround
    exact score_dev_iff.mp ⟨x, hx⟩
  · intro h
    refine exists_bind_eq_ok.mpr (Exists.imp (fun best hbest => ⟨hbest.1, best.1, rfl⟩)
      (forEnumM_rule (P := fun _ _ => True) trivial ?_))
    intro i m best hm _
    obtain ⟨x, hx⟩ := score_dev_iff.mpr (h m (List.mem_of_getElem? hm))
    exact ⟨_, bind_eq_ok.mpr ⟨x, hx, rfl⟩, trivial⟩

end HealthWeighted

namespace WeightedRoundRobin

/-- Comparing index `i` with index `b`, both products fit. -/
def ComparisonFits (s : WeightedRoundRobin) (i b : ℕ) : Prop :=
  s.picks.getD i 0 * s.weights.getD b 0 < 2 ^ 64 ∧
    s.picks.getD b 0 * s.weights.getD i 0 < 2 ^ 64

/-- All checks of a pick from these counts pass: each index is compared with the least-served
one before it, and the least-served one of all is counted. -/
structure ScanFits (s : WeightedRoundRobin) : Prop where
  products : ∀ i b, 0 < i → i < s.weights.length → IsFirstMin s.ratio i b → s.ComparisonFits i b
  count : ∀ b, IsFirstMin s.ratio s.weights.length b → s.picks.getD b 0 + 1 < 2 ^ 64

/-- One comparison of the scan in a dev build. -/
theorem compare_dev_eq_ok {s : WeightedRoundRobin} (h : s.WellSized) {best i next : ℕ}
    (hb : best < s.weights.length) (hi : i < s.weights.length) :
    s.compare .dev best i = .ok next ↔
      s.ComparisonFits i best ∧ next = if s.ratio i < s.ratio best then i else best := by
  rw [compare_eq .dev h hb hi]
  constructor
  · intro hround
    obtain ⟨lhs, hl, hround⟩ := bind_eq_ok.mp hround
    obtain ⟨rhs, hr, hround⟩ := bind_eq_ok.mp hround
    obtain ⟨hlt, rfl⟩ := narrow_dev_eq_ok.mp hl
    obtain ⟨hrt, rfl⟩ := narrow_dev_eq_ok.mp hr
    cases hround
    simp only [cross_lt_iff h hi hb]
    exact ⟨⟨hlt, hrt⟩, trivial⟩
  · rintro ⟨⟨hlt, hrt⟩, rfl⟩
    refine bind_eq_ok.mpr ⟨_, narrow_dev_eq_ok.mpr ⟨hlt, rfl⟩, ?_⟩
    refine bind_eq_ok.mpr ⟨_, narrow_dev_eq_ok.mpr ⟨hrt, rfl⟩, ?_⟩
    simp only [cross_lt_iff h hi hb]
    rfl

/-- The scan of a dev build returns the least-served index exactly when its products fit. -/
theorem leastServed_dev_iff {s : WeightedRoundRobin} (h : s.WellSized)
    (hne : 0 < s.weights.length) {b : ℕ} :
    leastServed .dev s = .ok b ↔ IsFirstMin s.ratio s.weights.length b ∧
      ∀ i b, 0 < i → i < s.weights.length → IsFirstMin s.ratio i b → s.ComparisonFits i b := by
  have hlen : 1 + (s.weights.length - 1) = s.weights.length := by omega
  have hfirst : IsFirstMin s.ratio 1 0 := isFirstMin_one
  rw [leastServed_eq]
  constructor
  · intro hscan
    -- the best index so far is the first minimum of the indices visited
    have hkeep : ∀ i best next, 1 ≤ i → i < 1 + (s.weights.length - 1) →
        IsFirstMin s.ratio i best → s.compare .dev best i = .ok next →
        IsFirstMin s.ratio (i + 1) next := by
      intro i best next hi hlt hbest hround
      have hb : best < s.weights.length := by have := hbest.lt; omega
      obtain ⟨-, rfl⟩ := (compare_dev_eq_ok h hb (by omega)).mp hround
      exact hbest.step
    refine ⟨hlen ▸ forRangeM_invariant hfirst hkeep hscan, fun i b hi hlt hb => ?_⟩
    obtain ⟨t, t', ht, hround⟩ := forRangeM_rounds hfirst hkeep hscan hi (by omega)
    obtain rfl : t = b := ht.unique hb
    exact ((compare_dev_eq_ok h (by have := hb.lt; omega) hlt).mp hround).1
  · rintro ⟨hb, hfits⟩
    have hscan := forRangeM_rule (n := s.weights.length - 1) hfirst fun i best hi hlt hbest => by
        have hi' : i < s.weights.length := by omega
        have hb' : best < s.weights.length := by have := hbest.lt; omega
        exact ⟨_, (compare_dev_eq_ok h hb' hi').mpr ⟨hfits i best hi hi' hbest, rfl⟩, hbest.step⟩
    obtain ⟨b', hb', hmin⟩ := hscan
    rw [hlen] at hmin
    obtain rfl : b' = b := hmin.unique hb
    exact hb'

/-- A dev pick from refreshed counts returns exactly when they fit. -/
theorem pick_dev_iff_refresh {s : WeightedRoundRobin} (h : s.WellSized) {view : PoolView}
    (hv : 0 < view.len) : (∃ r, s.pick .dev view = .ok r) ↔ (refresh s view).ScanFits := by
  have hws := refresh_wellSized h view
  have hlen := refresh_length h view
  have hne : (refresh s view).weights.isEmpty = false := by
    rw [List.isEmpty_eq_false_iff]
    exact List.ne_nil_of_length_pos (by omega)
  simp only [pick, hne, Bool.false_eq_true, if_false]
  constructor
  · rintro ⟨r, hr⟩
    obtain ⟨b, hb, hr⟩ := bind_eq_ok.mp hr
    obtain ⟨hmin, hfits⟩ := (leastServed_dev_iff hws (by omega)).mp hb
    refine ⟨hfits, fun b' hb' => ?_⟩
    obtain rfl : b = b' := hmin.unique hb'
    have hlt : b < (refresh s view).picks.length := hws.picks ▸ hmin.lt
    obtain ⟨x, hx, hr⟩ := bind_eq_ok.mp hr
    rw [Vec.get_of_lt hlt] at hx
    cases hx
    obtain ⟨count, hcount, -⟩ := bind_eq_ok.mp hr
    rw [getD_of_lt hlt]
    exact (narrow_dev_eq_ok.mp hcount).1
  · intro hfits
    obtain ⟨b, hmin⟩ := exists_isFirstMin (refresh s view).ratio (hlen ▸ hv)
    have hlt : b < (refresh s view).picks.length := hws.picks ▸ hmin.lt
    have hcount := hfits.count b hmin
    rw [getD_of_lt hlt] at hcount
    have hscan : leastServed .dev (refresh s view) = .ok b :=
      (leastServed_dev_iff hws (by omega)).mpr ⟨hmin, hfits.products⟩
    refine exists_bind_eq_ok.mpr ⟨b, hscan, ?_⟩
    refine exists_bind_eq_ok.mpr ⟨_, Vec.get_of_lt hlt, ?_⟩
    refine exists_bind_eq_ok.mpr ⟨_, narrow_dev_eq_ok.mpr ⟨hcount, rfl⟩, ?_⟩
    exact exists_bind_eq_ok.mpr ⟨_, Vec.modify_eq_ok.mpr ⟨hlt, rfl⟩, _, rfl⟩

/-- Counts that start over fit. -/
theorem rebuild_scanFits (s : WeightedRoundRobin) : (rebuild s).ScanFits := by
  have hzero : ∀ i, (rebuild s).picks.getD i 0 = 0 := by
    intro i
    rw [rebuild, List.getD_eq_getElem?_getD, List.getElem?_replicate]
    split <;> rfl
  refine ⟨fun i b _ _ _ => ?_, fun b _ => ?_⟩
  · rw [ComparisonFits, hzero, hzero, Nat.zero_mul, Nat.zero_mul]
    exact ⟨by decide, by decide⟩
  · rw [hzero]
    decide

/-- **When a dev pick returns**: always when the RTTs have changed, and otherwise when the
stored counts fit. -/
theorem pick_dev_iff {s : WeightedRoundRobin} (h : s.WellSized) {view : PoolView}
    (hv : 0 < view.len) :
    (∃ r, s.pick .dev view = .ok r) ↔
      (view.metrics.map TunnelMetrics.rtt = s.rtts → s.ScanFits) := by
  rw [pick_dev_iff_refresh h hv]
  by_cases hsame : view.metrics.map TunnelMetrics.rtt = s.rtts
  · have hrefresh : refresh s view = s := by simp [refresh, hsame]
    rw [hrefresh]
    exact ⟨fun hs _ => hs, fun hs => hs hsame⟩
  · have hrefresh : refresh s view =
        rebuild { s with rtts := view.metrics.map TunnelMetrics.rtt } := by simp [refresh, hsame]
    rw [hrefresh]
    exact iff_of_true (rebuild_scanFits _) fun hs => absurd hs hsame

/-- No backend has been picked more than `k` times since the RTTs last changed. -/
def PicksLe (k : ℕ) (s : WeightedRoundRobin) : Prop := ∀ x ∈ s.picks, x ≤ k

/-- A weight is at most 1000, so counts far below `2 ^ 64` fit. -/
theorem scanFits_of_picksLe {s : WeightedRoundRobin} (h : s.WellSized) {k : ℕ} (hp : s.PicksLe k)
    (hk : 1000 * (k + 1) < 2 ^ 64) : s.ScanFits := by
  have hpick : ∀ i, s.picks.getD i 0 ≤ k := by
    intro i
    rw [List.getD_eq_getElem?_getD]
    cases hi : s.picks[i]? with
    | none => exact Nat.zero_le k
    | some x => exact hp x (List.mem_of_getElem? hi)
  have hweight : ∀ i, s.weights.getD i 0 ≤ 1000 := by
    intro i
    rw [h.weights, List.getD_eq_getElem?_getD, List.getElem?_map]
    cases s.rtts[i]? with
    | none => exact Nat.zero_le _
    | some rtt => exact weight_le rtt
  have hprod : ∀ i j, s.picks.getD i 0 * s.weights.getD j 0 < 2 ^ 64 := by
    intro i j
    have := Nat.mul_le_mul (hpick i) (hweight j)
    omega
  refine ⟨fun i b _ _ _ => ⟨hprod i b, hprod b i⟩, fun b _ => ?_⟩
  have := hpick b
  omega

/-- A pick counts one more. -/
theorem PicksLe.pick {s s' : WeightedRoundRobin} {k i : ℕ} {view : PoolView} (hp : s.PicksLe k)
    (h : s.WellSized) (hv : 0 < view.len) (hpick : s.pick .release view = .ok (i, s')) :
    s'.PicksLe (k + 1) := by
  have hrefresh : (refresh s view).PicksLe k := by
    unfold refresh
    simp only
    split
    · intro x hx
      have hzero : x = 0 := (List.mem_replicate.mp hx).2
      omega
    · exact hp
  obtain ⟨b, t, ht, hb, hlt, -⟩ := pick_ok h hv
  have hlt' : b < (refresh s view).weights.length := by rwa [refresh_length h view]
  cases (pick_of_leastServed (refresh_wellSized h view) hlt' hb).symm.trans hpick
  intro x hx
  obtain ⟨j, hj⟩ := List.mem_iff_getElem?.mp hx
  rw [List.getElem?_modify] at hj
  obtain ⟨y, hy, rfl⟩ := Option.map_eq_some_iff.mp hj
  have hyk := hrefresh y (List.mem_of_getElem? hy)
  split
  · rename_i hbj
    have hcount : (refresh s view).picks.getD i 0 = y := by
      rw [hbj, List.getD_eq_getElem?_getD, hy, Option.getD_some]
    have hle := Nat.mod_le ((refresh s view).picks.getD i 0 + 1) (2 ^ 64)
    rw [hcount] at hle ⊢
    omega
  · exact Nat.le_succ_of_le hyk

end WeightedRoundRobin

/-- A report of an index below `2 ^ 64 - 1` returns in a dev build too. -/
theorem Failover.reportError_dev (s : Failover) {idx : ℕ} (hidx : idx + 1 < 2 ^ 64) :
    ∃ s', s.reportError .dev idx = .ok s' := by
  have hadd : Profile.dev.add 64 idx 1 = .ok (idx + 1) := narrow_dev_eq_ok.mpr ⟨hidx, rfl⟩
  rw [reportError]
  by_cases hlen : 0 < s.len
  · simp only [if_pos hlen, hadd, bind, Except.bind, rem_of_pos hlen]
    split
    · exact ⟨_, rfl⟩
    · exact ⟨_, rfl⟩
  · simp only [if_neg hlen, hadd, bind, Except.bind, rem_of_pos (Nat.succ_pos idx)]
    split
    · exact ⟨_, rfl⟩
    · exact ⟨_, rfl⟩

namespace Builtin

/-- All checks of a pick pass. -/
def PassesChecks (s : Builtin) (view : PoolView) : Prop :=
  match s with
  | weightedRoundRobin s => view.metrics.map TunnelMetrics.rtt = s.rtts → s.ScanFits
  | healthWeighted => ∀ m ∈ view.metrics, HealthWeighted.rawScore m < 2 ^ 64
  | _ => True

/-- **A dev pick returns exactly when it passes its checks**, and then an index of the view. -/
theorem pick_dev_iff (env : Env) (draw : ℕ) {s : Builtin} {view : PoolView} (h : Good s)
    (hv : 0 < view.len) :
    (∃ i s', pick .dev env draw s view = .ok (i, s') ∧ i < view.len ∧ Good s') ↔
      s.PassesChecks view := by
  -- what returns is the release pick, which is in range
  have hrange : (∃ i s', pick .dev env draw s view = .ok (i, s') ∧ i < view.len ∧ Good s') ↔
      ∃ r, pick .dev env draw s view = .ok r := by
    refine ⟨fun ⟨i, s', hi, _⟩ => ⟨_, hi⟩, fun ⟨r, hr⟩ => ?_⟩
    obtain ⟨i, s', hi, hlt, hgood⟩ := pick_ok env draw h hv
    cases (pick_refines env draw s view r hr).symm.trans hi
    exact ⟨i, s', hr, hlt, hgood⟩
  rw [hrange]
  cases s with
  | weightedRoundRobin s =>
      refine (exists_bind_eq_ok.trans ?_).trans (WeightedRoundRobin.pick_dev_iff (s := s) h hv)
      exact ⟨fun ⟨r, hr, _⟩ => ⟨r, hr⟩, fun ⟨r, hr⟩ => ⟨r, hr, _, rfl⟩⟩
  | healthWeighted =>
      refine (exists_bind_eq_ok.trans ?_).trans HealthWeighted.pick_dev_iff
      exact ⟨fun ⟨r, hr, _⟩ => ⟨r, hr⟩, fun ⟨r, hr⟩ => ⟨r, hr, _, rfl⟩⟩
  | _ =>
      obtain ⟨i, s', hi, -⟩ := pick_ok env draw h hv
      exact iff_of_true ⟨_, hi⟩ trivial

/-- The counts of a `WeightedRoundRobin` are at most `k`. -/
def PicksLe (k : ℕ) : Builtin → Prop
  | weightedRoundRobin s => s.PicksLe k
  | _ => True

theorem PicksLe.mono {j k : ℕ} {s : Builtin} (hp : s.PicksLe j) (hjk : j ≤ k) : s.PicksLe k := by
  cases s with
  | weightedRoundRobin s => exact fun x hx => (hp x hx).trans hjk
  | _ => trivial

/-- A new strategy has counted nothing. -/
theorem picksLe_of_constructed {k : ℕ} {s : Builtin} (h : Constructed s) : s.PicksLe k := by
  cases h with
  | weightedRoundRobin => exact fun x hx => absurd hx List.not_mem_nil
  | _ => trivial

/-- A report counts nothing. -/
theorem PicksLe.reportError {p : Profile} {k idx : ℕ} {s s' : Builtin} (hp : s.PicksLe k)
    (hs' : Builtin.reportError p s idx = .ok s') : s'.PicksLe k := by
  cases s with
  | failover s =>
      obtain ⟨t, -, ht⟩ := bind_eq_ok.mp hs'
      cases ht
      trivial
  | _ =>
      cases hs'
      exact hp

/-- Below `2 ^ 64 / 1000` picks only the score of `HealthWeighted` can overflow. -/
theorem passesChecks_of_picksLe {s : Builtin} {view : PoolView} {k : ℕ} (h : Good s)
    (hp : s.PicksLe k) (hk : 1000 * (k + 1) < 2 ^ 64)
    (hscore : s = healthWeighted → ∀ m ∈ view.metrics, HealthWeighted.rawScore m < 2 ^ 64) :
    s.PassesChecks view := by
  cases s with
  | weightedRoundRobin s => exact fun _ => WeightedRoundRobin.scanFits_of_picksLe h hp hk
  | healthWeighted => exact hscore rfl
  | _ => trivial

/-- A pick counts one more. -/
theorem PicksLe.pick {env : Env} {draw k i : ℕ} {s s' : Builtin} {view : PoolView}
    (hp : s.PicksLe k) (h : Good s) (hv : 0 < view.len)
    (hpick : Builtin.pick .dev env draw s view = .ok (i, s')) : s'.PicksLe (k + 1) := by
  cases s with
  | weightedRoundRobin s =>
      obtain ⟨⟨j, t⟩, ht, hs'⟩ := bind_eq_ok.mp hpick
      cases hs'
      exact WeightedRoundRobin.PicksLe.pick hp h hv (s.pick_refines view _ ht)
  | lowestRtt | sticky s =>
      cases hpick
      trivial
  | _ =>
      obtain ⟨r, -, hs'⟩ := bind_eq_ok.mp hpick
      cases hs'
      trivial

/-- A report of an index below `2 ^ 64 - 1` returns in a dev build and keeps the invariant. -/
theorem reportError_dev {s : Builtin} (h : Good s) {idx : ℕ} (hidx : idx + 1 < 2 ^ 64) :
    ∃ s', reportError .dev s idx = .ok s' ∧ Good s' := by
  have hok : ∃ s', reportError .dev s idx = .ok s' := by
    cases s with
    | failover s =>
        obtain ⟨s', hs'⟩ := s.reportError_dev hidx
        exact exists_bind_eq_ok.mpr ⟨s', hs', _, rfl⟩
    | _ => exact ⟨_, rfl⟩
  obtain ⟨s', hs'⟩ := hok
  obtain ⟨s'', hs'', hgood⟩ := reportError_ok idx h
  cases (reportError_refines s idx s' hs').symm.trans hs''
  exact ⟨s', hs', hgood⟩

end Builtin

end RotaLb
