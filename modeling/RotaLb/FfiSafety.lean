import RotaLb.Ffi
import RotaLb.Overflow

/-!
# Inputs That Disable a Handle

In a build with overflow checks a strategy that overflows panics. The C interface catches the
panic, but the mutexes of the handle are poisoned by it: the call that panicked and every later
one fails, `rota_lb_reset` included. `Fits` says of a call, on the handle it is made on, that no
check fails: under `HealthWeighted` every score of the metrics passed stays below `2 ^ 64`, under
`WeightedRoundRobin` the counts of the picks so far do, and the other strategies ask nothing.

## Main results

* `FfiLoadBalancer.serves_iff_fits`: on a handle that works, a call is served exactly when it
  fits.
* `FfiLoadBalancer.select_survives_iff`: **a run of calls is served throughout exactly when all
  its calls fit.**
* `FfiLoadBalancer.one_call_disables`: one call with a large round-trip time is enough.
* `FfiLoadBalancer.serves_of_scoresFit`: in a run of realistic length only the scores of
  `HealthWeighted` matter.
-/

namespace RotaLb

open Rust StepSystem

/-- The score `HealthWeighted` gives to a row, over the unbounded integers. -/
def FfiMetric.score (m : FfiMetric) : ℕ :=
  (if m.rttUs = 0 then 1000000 else m.rttUs.toNat) + 500000 * m.recentErrors.toNat
    + 10000 * m.activeConnections.toNat

/-- It is the sum that the strategy computes: a round-trip time passed in always fits. -/
theorem rawScore_ffiToTunnel (m : FfiMetric) :
    HealthWeighted.rawScore (ffiToTunnel m) = m.score := by
  have hrtt : HealthWeighted.rttTerm (ffiToTunnel m) =
      if m.rttUs = 0 then 1000000 else m.rttUs.toNat := by
    rw [HealthWeighted.rttTerm, ffiToTunnel]
    by_cases hzero : m.rttUs = 0
    · simp only [hzero, if_true]
      rfl
    · simp only [hzero, if_false, Duration.asMicros_fromMicros, tryFrom, m.rttUs.toNat_lt,
        if_true, Option.getD_some]
  rw [HealthWeighted.rawScore, hrtt, FfiMetric.score, HealthWeighted.penalties]
  exact (Nat.add_assoc _ _ _).symm

namespace FfiLoadBalancer

/-- No overflow check fails in the call: a condition on the metrics passed and on the strategy
the handle holds. -/
def Fits (h : FfiLoadBalancer) (c : FfiCall) : Prop :=
  ∀ addr metrics draw, c.accepted h.backendCount = some (addr, metrics, draw) →
    match h.strategy with
    | .sound .healthWeighted => ∀ m ∈ metrics, m.score < 2 ^ 64
    | .sound (.weightedRoundRobin s) =>
      metrics.map (fun m => (ffiToTunnel m).rtt) = s.rtts → s.ScanFits
    | _ => True

/-- An accepted select returns an index of the pool, and a reset returns 0. -/
def Serves (env : Env) (h : FfiLoadBalancer) : FfiCall → Prop
  | .select null dialAddr rows n draw =>
    ((FfiCall.select null dialAddr rows n draw).accepted h.backendCount).isSome →
      (h.rotaLbSelect .dev env draw null dialAddr rows n).1.toNat < h.backendCount
  | .reset false => (h.rotaLbReset false).1 = 0
  | _ => True

/-- A handle for `n` backends that works. -/
structure Live (n : UInt32) (h : FfiLoadBalancer) : Prop where
  pos : 0 < n.toNat
  count : h.backendCount = n.toNat
  strategy : ∃ s, h.strategy = .sound s ∧ s.Good
  scratch : ∃ v, h.scratch = .sound v

variable {env : Env} {n : UInt32} {h h' : FfiLoadBalancer} {c : FfiCall}

/-- On a working handle the condition is the one of its strategy. -/
theorem fits_iff {s : Builtin} (hs : h.strategy = .sound s) :
    h.Fits c ↔ ∀ addr metrics draw, c.accepted h.backendCount = some (addr, metrics, draw) →
      s.PassesChecks ⟨addr, metrics.map ffiToTunnel⟩ := by
  refine forall₄_congr fun addr metrics draw _ => ?_
  rw [hs]
  cases s with
  | healthWeighted =>
      simp only [Builtin.PassesChecks, List.forall_mem_map, rawScore_ffiToTunnel]
  | weightedRoundRobin s =>
      simp only [Builtin.PassesChecks, List.map_map]
      exact Iff.rfl
  | _ => exact Iff.rfl

/-- The view of an accepted call has one row for each backend. -/
theorem len_of_accepted {addr : String} {metrics : List FfiMetric} {draw k : ℕ}
    (hc : c.accepted k = some (addr, metrics, draw)) :
    (PoolView.mk addr (metrics.map ffiToTunnel)).len = k := by
  rw [PoolView.len, List.length_map, FfiCall.length_of_accepted hc]

/-- An index of the pool passes the conversion to `u32`. -/
theorem toNat_of_index {i : ℕ} (hi : i < n.toNat) :
    (UInt32.ofNat ((tryFrom 32 i).getD u32Max.toNat)).toNat = i := by
  have hlt : i < 2 ^ 32 := hi.trans n.toNat_lt
  rw [tryFrom, if_pos hlt, Option.getD_some, UInt32.toNat_ofNat_of_lt' hlt]

/-- **A call on a working handle is served exactly when it fits.** -/
theorem serves_iff_fits (hl : Live n h) (c : FfiCall) : h.Serves env c ↔ h.Fits c := by
  obtain ⟨hpos, hcount, ⟨s, hs, hgood⟩, v, hv⟩ := hl
  have hn : 0 < h.backendCount := hcount ▸ hpos
  have hother : c.accepted h.backendCount = none → h.Fits c := by
    intro hnone addr metrics draw hsome
    cases hnone.symm.trans hsome
  cases c with
  | select null dialAddr rows m draw =>
      cases hc : (FfiCall.select null dialAddr rows m draw).accepted h.backendCount with
      | none => exact iff_of_true (fun hsome => by simp [hc] at hsome) (hother hc)
      | some args =>
          obtain ⟨addr, metrics, k⟩ := args
          have hlen := len_of_accepted hc
          have hserves : h.Serves env (.select null dialAddr rows m draw) ↔
              (h.rotaLbSelect .dev env draw null dialAddr rows m).1.toNat < h.backendCount :=
            ⟨fun hserve => hserve (by simp [hc]), fun hlt _ => hlt⟩
          have hfits : h.Fits (.select null dialAddr rows m draw) ↔
              s.PassesChecks ⟨addr, metrics.map ffiToTunnel⟩ := by
            rw [fits_iff hs]
            refine ⟨fun hall => hall _ _ _ hc, fun hfit addr' metrics' draw' hc' => ?_⟩
            cases hc.symm.trans hc'
            exact hfit
          rw [hserves, hfits, ← Builtin.pick_dev_iff env k hgood (hlen ▸ hn),
            rotaLbSelect_of_accepted hn hs hv hc]
          constructor
          · intro hlt
            -- the error value is no index
            cases hpick : s.pick .dev env k ⟨addr, metrics.map ffiToTunnel⟩ with
            | error e =>
                rw [hpick] at hlt
                have := n.toNat_lt
                have hmax : u32Max.toNat = 2 ^ 32 - 1 := rfl
                simp only [hmax] at hlt
                omega
            | ok r =>
                obtain ⟨i, s', hi, hrest⟩ := Builtin.pick_ok env k hgood (hlen ▸ hn)
                cases (Builtin.pick_refines env k s _ r hpick).symm.trans hi
                exact ⟨i, s', rfl, hrest⟩
          · rintro ⟨i, s', hpick, hlt, -⟩
            rw [hpick]
            have hi : i < n.toNat := by rw [← hcount, ← hlen]; exact hlt
            simp only [toNat_of_index hi]
            rw [hcount]
            exact hi
  | reset null =>
      refine iff_of_true ?_ (hother rfl)
      cases null with
      | true => trivial
      | false => simp [Serves, rotaLbReset, hs]
  | reportError null idx => exact iff_of_true trivial (hother rfl)
  | reportSuccess null idx => exact iff_of_true trivial (hother rfl)
  | setStrategy null kind => exact iff_of_true trivial (hother rfl)
  | metrics null outNull => exact iff_of_true trivial (hother rfl)
  | strategyName null => exact iff_of_true trivial (hother rfl)

/-- A call that fits leaves a working handle. -/
theorem Live.step (hl : Live n h) (hc : h.Fits c) (hstep : c.step .dev env h = .ok h') :
    Live n h' := by
  obtain ⟨hpos, hcount, ⟨s, hs, hgood⟩, v, hv⟩ := hl
  have hn : 0 < h.backendCount := hcount ▸ hpos
  have hbuilt : ∀ kind : FfiStrategy, (kind.build h.backendCount).Good :=
    fun kind => (kind.build_constructed _).good
  cases step_effect hn hs hv hstep with
  | selected haccepted hpick =>
      obtain ⟨i, s', hpick', -, hgood'⟩ :=
        (Builtin.pick_dev_iff env _ hgood (len_of_accepted haccepted ▸ hn)).mpr
          ((fits_iff hs).mp hc _ _ _ haccepted)
      cases hpick.symm.trans hpick'
      exact ⟨hpos, hcount, ⟨_, rfl, hgood'⟩, _, rfl⟩
  | disabled haccepted herror =>
      obtain ⟨i, s', hpick, -⟩ :=
        (Builtin.pick_dev_iff env _ hgood (len_of_accepted haccepted ▸ hn)).mpr
          ((fits_iff hs).mp hc _ _ _ haccepted)
      cases hpick.symm.trans herror
  | @told idx s' hs' =>
      have hidx : idx.toNat + 1 < 2 ^ 64 := by have := idx.toNat_lt; omega
      obtain ⟨s'', hs'', hgood'⟩ := Builtin.reportError_dev hgood hidx
      cases hs'.symm.trans hs''
      exact ⟨hpos, hcount, ⟨s', rfl, hgood'⟩, v, hv⟩
  | @silenced idx e herror =>
      have hidx : idx.toNat + 1 < 2 ^ 64 := by have := idx.toNat_lt; omega
      obtain ⟨s', hs', -⟩ := Builtin.reportError_dev hgood hidx
      cases hs'.symm.trans herror
  | rebuilt => exact ⟨hpos, hcount, ⟨_, rfl, hbuilt _⟩, v, hv⟩
  | idle => exact ⟨hpos, hcount, ⟨s, hs, hgood⟩, v, hv⟩

/-- A new handle works. -/
theorem create_live {kind : Int32} (hcreate : rotaLbCreate n kind = some h) : Live n h := by
  obtain ⟨hpos, hcount, hscratch, k, hs⟩ := create_eq_some hcreate
  exact ⟨UInt32.lt_iff_toNat_lt.mp hpos, hcount, ⟨_, hs, (k.build_constructed _).good⟩, _, hscratch⟩

/-- A run from a working handle is served exactly when all its calls fit. -/
theorem along_serves_iff (hl : Live n h) (calls : List FfiCall) :
    Along (FfiCall.step .dev env) (Serves env) h calls ↔
      Along (FfiCall.step .dev env) Fits h calls := by
  have hiff : ∀ (h : FfiLoadBalancer) (c : FfiCall), Live n h → (h.Serves env c ↔ h.Fits c) :=
    fun h c hl => serves_iff_fits hl c
  constructor
  · intro hserves
    -- what is served goes through working handles only
    refine (along_congr ?_ (fun h c hl _ => hiff h c hl) hl hserves).mp hserves
    exact fun h c h' hl hserve hstep => hl.step ((hiff h c hl).mp hserve) hstep
  · intro hfits
    refine (along_congr ?_ (fun h c hl _ => hiff h c hl) hl hfits).mpr hfits
    exact fun h c h' hl hfit hstep => hl.step hfit hstep

/-- **Which inputs a handle survives.** In a build with overflow checks, for a handle made with
a positive number of backends and a valid kind and any calls on it: every accepted
`rota_lb_select` returns an index below the number of backends and every `rota_lb_reset` returns
0 exactly when every call fits. -/
theorem select_survives_iff (env : Env) {kind : Int32} (hn : 0 < n)
    (hkind : (FfiStrategy.fromI32 kind).isSome) :
    ∃ h, rotaLbCreate n kind = some h ∧ ∀ calls,
      Along (FfiCall.step .dev env) (Serves env) h calls ↔
        Along (FfiCall.step .dev env) Fits h calls := by
  obtain ⟨h, hcreate⟩ := exists_create hn hkind
  exact ⟨h, hcreate, along_serves_iff (create_live hcreate)⟩

/-- A new handle for two backends under `HealthWeighted`. -/
def healthPair : FfiLoadBalancer := ⟨.sound .healthWeighted, 2, .healthWeighted, .sound []⟩

/-- The first backend is marked unreachable by the largest round-trip time, with this many
errors. -/
def marked (errors : UInt32) (i : ℕ) : FfiMetric :=
  if i = 0 then { rttUs := 0xFFFFFFFFFFFFFFFF, recentErrors := errors } else default

/-- The largest round-trip time without an error fits, and so does a first pick under
`WeightedRoundRobin`. -/
def survivingCalls : List FfiCall :=
  [.select false (some (.utf8 "h:1")) (some (marked 0)) 2 0, .setStrategy false 5,
    .select false (some (.utf8 "h:1")) (some (marked 1)) 2 0, .reset false]

/-- These calls are served. -/
theorem select_survives_calls :
    ∃ h, rotaLbCreate 2 7 = some h ∧
      Along (FfiCall.step .dev Env.plain) (Serves Env.plain) h survivingCalls := by
  obtain ⟨h, hcreate, hiff⟩ :=
    select_survives_iff (n := 2) Env.plain (show 0 < (2 : UInt32) by decide)
      (show (FfiStrategy.fromI32 7).isSome by decide)
  refine ⟨h, hcreate, (hiff survivingCalls).mpr ?_⟩
  obtain rfl : healthPair = h := Option.some.inj hcreate
  refine ⟨?_, ?_⟩
  · rintro addr metrics draw ⟨⟩
    change ∀ m ∈ [marked 0 0, marked 0 1], m.score < 2 ^ 64
    decide
  rintro h₁ ⟨⟩
  refine ⟨by rintro addr metrics draw ⟨⟩, ?_⟩
  rintro h₂ ⟨⟩
  refine ⟨?_, ?_⟩
  · rintro addr metrics draw ⟨⟩ hsame
    cases hsame
  rintro h₃ ⟨⟩
  exact ⟨by rintro addr metrics draw ⟨⟩, fun _ _ => trivial⟩

/-- One select with a large round-trip time and one error returns the error value; after it a
harmless select does so too, and the reset fails. -/
theorem one_call_disables :
    rotaLbCreate 2 7 = some healthPair ∧
      (healthPair.rotaLbSelect .dev Env.plain 0 false (some (.utf8 "h:1")) (some (marked 1)) 2).1
        = u32Max ∧
      (∀ h, run (FfiCall.step .dev Env.plain) healthPair
          [.select false (some (.utf8 "h:1")) (some (marked 1)) 2 0] = .ok h →
        (h.rotaLbSelect .dev Env.plain 0 false (some (.utf8 "h:1")) (some fun _ => default) 2).1
            = u32Max ∧
          (h.rotaLbReset false).1 = -1) := by
  refine ⟨rfl, by decide, fun h hrun => ?_⟩
  obtain rfl : healthPair.disabled = h := Except.ok.inj (Eq.trans (by rfl) hrun)
  exact ⟨by decide, by decide⟩

/-! ### Runs of realistic length -/

/-- Under `HealthWeighted` the scores of an accepted select stay below `2 ^ 64`. -/
def ScoresFit (h : FfiLoadBalancer) (c : FfiCall) : Prop :=
  h.strategy = .sound .healthWeighted → ∀ addr metrics draw,
    c.accepted h.backendCount = some (addr, metrics, draw) → ∀ m ∈ metrics, m.score < 2 ^ 64

/-- The counts of the handle's strategy are at most `k`. -/
def Counted (k : ℕ) (h : FfiLoadBalancer) : Prop := ∀ s, h.strategy = .sound s → s.PicksLe k

/-- A call whose scores fit, on counts far below `2 ^ 64`. -/
theorem Counted.fits {k : ℕ} (hk : h.Counted k) (hl : Live n h) (hlt : 1000 * (k + 1) < 2 ^ 64)
    (hc : h.ScoresFit c) : h.Fits c := by
  obtain ⟨s, hs, hgood⟩ := hl.strategy
  refine (fits_iff hs).mpr fun addr metrics draw haccepted => ?_
  refine Builtin.passesChecks_of_picksLe hgood (hk s hs) hlt fun hhealth => ?_
  subst hhealth
  simp only [List.forall_mem_map, rawScore_ffiToTunnel]
  exact hc hs addr metrics draw haccepted

/-- A call raises the counts by one at most. -/
theorem Counted.step {k : ℕ} (hk : h.Counted k) (hl : Live n h)
    (hstep : c.step .dev env h = .ok h') : h'.Counted (k + 1) := by
  obtain ⟨hpos, hcount, ⟨s, hs, hgood⟩, v, hv⟩ := hl
  have hn : 0 < h.backendCount := hcount ▸ hpos
  have hmono : s.PicksLe (k + 1) := (hk s hs).mono (Nat.le_succ k)
  cases step_effect hn hs hv hstep with
  | selected haccepted hpick =>
      rintro t ⟨⟩
      exact (hk s hs).pick hgood (len_of_accepted haccepted ▸ hn) hpick
  | disabled | silenced => rintro t ⟨⟩
  | told hs' =>
      rintro t ⟨⟩
      exact hmono.reportError hs'
  | @rebuilt _ kind =>
      rintro t ⟨⟩
      exact Builtin.picksLe_of_constructed (kind.build_constructed _)
  | idle =>
      intro t ht
      cases hs.symm.trans ht
      exact hmono

/-- **In a run of fewer than `2 ^ 64 / 1000` calls only the scores matter.** -/
theorem fits_of_scoresFit {calls : List FfiCall} {k : ℕ} (hk : h.Counted k) (hl : Live n h)
    (hlen : 1000 * (k + calls.length) < 2 ^ 64)
    (hcalls : Along (FfiCall.step .dev env) ScoresFit h calls) :
    Along (FfiCall.step .dev env) Fits h calls := by
  induction calls generalizing h k with
  | nil => trivial
  | cons c calls ih =>
      rw [List.length_cons] at hlen
      have hfits : h.Fits c := hk.fits hl (by omega) hcalls.1
      refine ⟨hfits, fun h' hstep => ?_⟩
      exact ih (hk.step hl hstep) (hl.step hfits hstep) (by omega) (hcalls.2 h' hstep)

/-- A new handle has counted nothing. -/
theorem create_counted {kind : Int32} (hcreate : rotaLbCreate n kind = some h) :
    h.Counted 0 := by
  obtain ⟨-, -, -, k, hs⟩ := create_eq_some hcreate
  intro s hs'
  cases hs.symm.trans hs'
  exact Builtin.picksLe_of_constructed (k.build_constructed _)

/-- **A handle serves every run of fewer than `2 ^ 64 / 1000` calls in which no score reaches
`2 ^ 64` while `HealthWeighted` is in use.** -/
theorem serves_of_scoresFit {kind : Int32} {calls : List FfiCall}
    (hcreate : rotaLbCreate n kind = some h) (hlen : 1000 * calls.length < 2 ^ 64)
    (hcalls : Along (FfiCall.step .dev env) ScoresFit h calls) :
    Along (FfiCall.step .dev env) (Serves env) h calls := by
  have hlive := create_live hcreate
  have hfits := fits_of_scoresFit (create_counted hcreate) hlive (by omega) hcalls
  exact (along_serves_iff hlive calls).mpr hfits

end FfiLoadBalancer

end RotaLb
