import RotaLb.StrategySafety

/-!
# The Orders the Scanning Strategies Minimise

`LeastConnections`, `LowestRtt`, `Sticky` at its first pick and `HealthWeighted` return the
least index of the view in an order of their own, ties broken by the index. The sentinels of
their loops (`u32::MAX`, `Duration::MAX`, `u64::MAX` with index 0) are legal data, and do no
harm: whatever equals the sentinel cannot beat index 0 anyway.

`HealthWeighted` computes its score in `u64`. A score that reaches `2 ^ 64` wraps in a release
build, and a round-trip time of `2 ^ 64` microseconds or more is read as one second; what is
minimised is what is left of the score then (`residue`), not the score itself (`trueScore`).

## Main results

* `scans_lexFirst`: **the scanning strategies return the lexicographically first minimum**, and
  `Sticky` stays with it.
* `HealthWeighted.picks_least_iff`: **`HealthWeighted` returns the first minimum of the true
  score exactly when no score too large for 64 bits comes before it**.
-/

namespace RotaLb

open Rust Scan StepSystem

/-- The index is the least one of the view in the order of `(key, index)`. -/
def LexFirst {κ : Type} [LinearOrder κ] (key : TunnelMetrics → κ) (view : PoolView) (i : ℕ) :
    Prop :=
  i < view.len ∧
    ∀ j < view.len, toLex (keyAt key view.metrics i, i) ≤ toLex (keyAt key view.metrics j, j)

/-- A scan that returns the first minimum of a key returns the least index in that order. -/
theorem lexFirst_iff {κ : Type} [LinearOrder κ] {key : TunnelMetrics → κ} {view : PoolView}
    {i : ℕ} : LexFirst key view i ↔ IsFirstMin (keyAt key view.metrics) view.len i :=
  isFirstMin_iff_lex.symm

/-! ### Counts and round-trip times -/

namespace Sticky

/-- A pinned `Sticky` is changed by no call. -/
theorem run_pinned (env : Env) (idx : ℕ) (calls : List Call) :
    run (Call.step env) (Builtin.sticky ⟨some idx⟩) calls = .ok (.sticky ⟨some idx⟩) := by
  induction calls with
  | nil => rfl
  | cons c calls ih =>
      refine run_cons_eq_ok.mpr ⟨_, ?_, ih⟩
      cases c with
      | pick draw view => rfl
      | reportError idx => rfl
      | reportSuccess idx => rfl

/-- The first pick is remembered. -/
theorem new_pick (view : PoolView) :
    Sticky.new.pick view = (LowestRtt.pick view, ⟨some (LowestRtt.pick view)⟩) := rfl

/-- In a pool that has not shrunk below the pin, the pin is picked as it is. -/
theorem pick_pinned (env : Env) (draw : ℕ) {idx : ℕ} {view : PoolView} (h : idx < view.len) :
    BalanceStrategy.pick env draw (Builtin.sticky ⟨some idx⟩) view =
      .ok (idx, .sticky ⟨some idx⟩) := by
  have hmin : min idx (view.len - 1) = idx := Nat.min_eq_left (by omega)
  have hpick : (Sticky.mk (some idx)).pick view = (min idx (view.len - 1), ⟨some idx⟩) := rfl
  change Except.ok ((Sticky.pick _ view).1, Builtin.sticky (Sticky.pick _ view).2) = _
  rw [hpick, hmin]

end Sticky

/-- **The scanning strategies return the lexicographically first minimum**, on every non-empty
view, an absent round-trip time being read as `Duration::MAX`:

* `LeastConnections` of (connections, round-trip time, index);
* `LowestRtt`, and `Sticky` at its first pick, of (round-trip time, index);
* and after that pick `Sticky` returns its index on every view of at least that size, whatever
  picks and reports come between. -/
theorem scans_lexFirst {view : PoolView} (hv : 0 < view.len) :
    (∃ i, LeastConnections.pick view = .ok i ∧ LexFirst TunnelMetrics.loadKey view i) ∧
    LexFirst TunnelMetrics.rttOrMax view (LowestRtt.pick view) ∧
    LexFirst TunnelMetrics.rttOrMax view (Sticky.new.pick view).1 ∧
    ∀ (env : Env) (calls : List Call),
      ∃ s, run (Call.step env) (Builtin.sticky (Sticky.new.pick view).2) calls = .ok s ∧
        ∀ (draw : ℕ) (view' : PoolView), view.len ≤ view'.len →
          ∃ s', BalanceStrategy.pick env draw s view' = .ok ((Sticky.new.pick view).1, s') := by
  have hrtt : LexFirst TunnelMetrics.rttOrMax view (LowestRtt.pick view) :=
    lexFirst_iff.mpr (LowestRtt.pick_isFirstMin hv)
  obtain ⟨i, hi, hmin⟩ := LeastConnections.pick_isFirstMin hv
  refine ⟨⟨i, hi, lexFirst_iff.mpr hmin⟩, hrtt, hrtt, fun env calls => ?_⟩
  rw [Sticky.new_pick]
  have hpinned := Sticky.run_pinned env (LowestRtt.pick view) calls
  refine ⟨_, hpinned, fun draw view' hle => ?_⟩
  exact ⟨_, Sticky.pick_pinned env draw (hrtt.1.trans_le hle)⟩

/-- Three backends: full counts everywhere, no round-trip time, `Duration::MAX` and 5 ms. -/
def fullView : PoolView :=
  ⟨"h", [{ activeConnections := u32Max }, { rtt := some .MAX, activeConnections := u32Max },
    { rtt := some (.fromMillis 5), activeConnections := u32Max }]⟩

/-- The last one comes first in both orders, and `Sticky` stays there. -/
theorem scans_lexFirst_fullView :
    LeastConnections.pick fullView = .ok 2 ∧ LexFirst TunnelMetrics.loadKey fullView 2 ∧
    LexFirst TunnelMetrics.rttOrMax fullView 2 ∧
    ∃ s', BalanceStrategy.pick Env.plain 0 (Builtin.sticky (Sticky.new.pick fullView).2)
      (.blank 4) = .ok (2, s') := by
  have hpos : 0 < fullView.len := by decide
  obtain ⟨⟨i, hi, hload⟩, hrtt, -, hstays⟩ := scans_lexFirst hpos
  have hpick : LeastConnections.pick fullView = .ok 2 := by decide
  cases hi.symm.trans hpick
  obtain ⟨s, hs, hnext⟩ := hstays Env.plain []
  cases hs
  exact ⟨hpick, hload, hrtt, hnext 0 (.blank 4) (by decide)⟩

/-! ### The health score -/

namespace HealthWeighted

/-- The round-trip time in whole microseconds, or one second when it is unknown. -/
def rttUs (m : TunnelMetrics) : ℕ := (m.rtt.map Duration.asMicros).getD 1000000

/-- The two penalties. -/
def penalties (m : TunnelMetrics) : ℕ :=
  500000 * m.recentErrors.toNat + 10000 * m.activeConnections.toNat

/-- The score over the unbounded integers. -/
def trueScore (m : TunnelMetrics) : ℕ := rttUs m + penalties m

/-- What 64 bits keep of the score: the last of them when only the sum is too large, and the
penalties over one second when the round-trip time is. -/
def residue (m : TunnelMetrics) : ℕ :=
  if rttUs m < 2 ^ 64 then trueScore m % 2 ^ 64 else 1000000 + penalties m

/-- The penalties are far below `2 ^ 64`. -/
theorem penalties_lt (m : TunnelMetrics) : 1000000 + penalties m < 2 ^ 64 := by
  have he := m.recentErrors.toNat_lt
  have hc := m.activeConnections.toNat_lt
  rw [penalties]
  omega

/-- The RTT term is the round-trip time where it fits, one second where it does not. -/
theorem rttTerm_eq (m : TunnelMetrics) :
    rttTerm m = if rttUs m < 2 ^ 64 then rttUs m else 1000000 := by
  rw [rttTerm, rttUs]
  cases m.rtt with
  | none => rfl
  | some r =>
      simp only [Option.map_some, Option.getD_some, tryFrom]
      split <;> rfl

/-- The score computed in a release build is the residue of the true one. -/
theorem wrappedScore_eq_residue (m : TunnelMetrics) : wrappedScore m = residue m := by
  have hsum : rttTerm m + m.recentErrors.toNat * ERROR_PENALTY_US
      + m.activeConnections.toNat * LOAD_PENALTY_US = rttTerm m + penalties m := by
    rw [penalties, ERROR_PENALTY_US, LOAD_PENALTY_US]
    omega
  rw [wrappedScore, hsum, rttTerm_eq, residue]
  split
  · rfl
  · exact Nat.mod_eq_of_lt (penalties_lt m)

/-- Below `2 ^ 64` nothing is lost. -/
theorem residue_of_lt {m : TunnelMetrics} (h : trueScore m < 2 ^ 64) : residue m = trueScore m := by
  have hrtt : rttUs m < 2 ^ 64 := by
    rw [trueScore] at h
    omega
  rw [residue, if_pos hrtt, Nat.mod_eq_of_lt h]

/-- **The true minimum, exactly.** On every non-empty view `HealthWeighted::pick` in a release
build returns, and it returns the least index of minimal true score if and only if no backend
whose true score reaches `2 ^ 64` comes before that index in the order of the residues. -/
theorem picks_least_iff {view : PoolView} (hv : 0 < view.len) :
    ∃ i, HealthWeighted.pick .release view = .ok i ∧
      (LexFirst trueScore view i ↔
        ∀ b, LexFirst trueScore view b → ∀ j < view.len, 2 ^ 64 ≤ keyAt trueScore view.metrics j →
          toLex (keyAt residue view.metrics b, b) ≤
            toLex (keyAt residue view.metrics j, j)) := by
  obtain ⟨i, hi, hmin⟩ := HealthWeighted.pick_isFirstMin hv
  rw [funext wrappedScore_eq_residue] at hmin
  refine ⟨i, hi, fun hfirst b hb j hj _ => ?_, fun hcond => ?_⟩
  · obtain rfl : i = b := (lexFirst_iff.mp hfirst).unique (lexFirst_iff.mp hb)
    exact (isFirstMin_iff_lex.mp hmin).2 j hj
  · obtain ⟨b, hb⟩ := exists_isFirstMin (keyAt trueScore view.metrics) hv
    have hb' := lexFirst_iff.mpr hb
    -- the true minimum is the minimum of the residues as well
    have hresidue : IsFirstMin (keyAt residue view.metrics) view.len b := by
      refine isFirstMin_iff_lex.mpr ⟨hb.lt, fun j hj => ?_⟩
      by_cases hbig : 2 ^ 64 ≤ keyAt trueScore view.metrics j
      · exact hcond b hb' j hj hbig
      · have hbj := hb.le j hj
        have hj' : keyAt residue view.metrics j = keyAt trueScore view.metrics j :=
          residue_of_lt (not_le.mp hbig)
        have hb'' : keyAt residue view.metrics b = keyAt trueScore view.metrics b :=
          residue_of_lt (hbj.trans_lt (not_le.mp hbig))
        rw [hj', hb'']
        exact hb'.2 j hj
    obtain rfl : i = b := hmin.unique hresidue
    exact hb'

/-- A backend marked unreachable by the largest round-trip time, with one error, and another
one at the given distance. -/
def markedView (ms : UInt64) : PoolView :=
  ⟨"h", [{ rtt := some (.fromMicros 0xFFFFFFFFFFFFFFFF), recentErrors := 1 },
    { rtt := some (.fromMillis ms) }]⟩

/-- Next to a backend at 10 ms the residue does no harm. -/
theorem picks_least_tenMillis :
    HealthWeighted.pick .release (markedView 10) = .ok 1 ∧
      LexFirst trueScore (markedView 10) 1 := by
  have hpos : 0 < (markedView 10).len := by decide
  obtain ⟨i, hi, hiff⟩ := picks_least_iff hpos
  have hpick : HealthWeighted.pick .release (markedView 10) = .ok 1 := by decide
  cases hi.symm.trans hpick
  have hfirst : IsFirstMin (keyAt trueScore (markedView 10).metrics) (markedView 10).len 1 :=
    ⟨by decide, by decide, by decide⟩
  refine ⟨hpick, hiff.mpr fun b hb => ?_⟩
  obtain rfl : b = 1 := (lexFirst_iff.mp hb).unique hfirst
  decide

/-- Next to a backend at one second it wins: the unreachable backend is picked. -/
theorem unreachable_backend_picked :
    HealthWeighted.pick .release (markedView 1000) = .ok 0 ∧
      ¬ LexFirst trueScore (markedView 1000) 0 := by
  refine ⟨by decide, fun h => ?_⟩
  exact absurd ((lexFirst_iff.mp h).le 1 (by decide)) (by decide)

end HealthWeighted

end RotaLb
