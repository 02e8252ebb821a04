import RotaLb.Ffi

/-!
# Reading the Metrics Back

`rota_lb_metrics` writes the scratch copy that the last `rota_lb_select` left in the handle. Two
conversions lie between what the caller passed and what it reads: microseconds to a `Duration`,
with 0 for an unknown one, and back. They lose nothing, so as long as no strategy call panics
the read-back is what was passed, whatever calls came in between.

## Main results

* `tunnelToFfi_ffiToTunnel`: **the conversions are a round trip** on every `FfiMetric`.
* `FfiLoadBalancer.run_remembers`: what a run of calls without a panic leaves in the scratch
  copy.
* `FfiLoadBalancer.metrics_readback`: **the read-back is the last accepted input**, and no other
  call changes it.
-/

namespace RotaLb

open Rust StepSystem

/-- **The conversions are a round trip.** -/
theorem tunnelToFfi_ffiToTunnel (m : FfiMetric) : tunnelToFfi (ffiToTunnel m) = m := by
  have hrtt : (tunnelToFfi (ffiToTunnel m)).rttUs = m.rttUs := by
    rw [tunnelToFfi, ffiToTunnel]
    by_cases hzero : m.rttUs = 0
    · simp [hzero]
    · simp only [hzero, if_false, Duration.asMicros_fromMicros, tryFrom, m.rttUs.toNat_lt,
        if_true, Option.getD_some, UInt64.ofNat_toNat]
  obtain ⟨rttUs, _, _, _, _⟩ := m
  simpa [tunnelToFfi, ffiToTunnel] using hrtt

/-- The metrics that a select call passes, if it is accepted. -/
def FfiCall.passed (n : ℕ) (c : FfiCall) : Option (List FfiMetric) :=
  (c.accepted n).map fun args => args.2.1

/-- The metrics of the most recent accepted call, all zeros if there was none. -/
def lastPassed (n : ℕ) (calls : List FfiCall) : List FfiMetric :=
  (calls.filterMap (FfiCall.passed n)).getLast?.getD (List.replicate n default)

namespace FfiLoadBalancer

/-- The strategy call that `c` makes, if it makes one, returns. -/
def returns (p : Profile) (env : Env) (h : FfiLoadBalancer) (c : FfiCall) : Bool :=
  match h.strategy with
  | .poisoned => true
  | .sound s =>
    match c.accepted h.backendCount, c with
    | some (addr, metrics, draw), _ =>
      (s.pick p env draw ⟨addr, metrics.map ffiToTunnel⟩).isOk
    | none, .reportError false idx => (s.reportError p idx.toNat).isOk
    | none, _ => true

/-- A handle for `n` backends whose scratch copy is empty or holds `rows`. -/
structure Remembers (n : ℕ) (rows : List FfiMetric) (h : FfiLoadBalancer) : Prop where
  count : h.backendCount = n
  strategy : ∃ s, h.strategy = .sound s
  scratch : h.scratch = .sound [] ∧ rows = List.replicate n default ∨
    h.scratch = .sound (rows.map ffiToTunnel) ∧ rows.length = n

variable {p : Profile} {env : Env} {n : ℕ} {rows : List FfiMetric} {h h' : FfiLoadBalancer}

/-- What a handle remembers is what it writes. -/
theorem Remembers.metrics (hr : Remembers n rows h) :
    h.rotaLbMetrics false false = (0, some rows) := by
  rw [rotaLbMetrics]
  simp only [hr.count, Bool.or_false, Bool.false_eq_true, if_false]
  rcases hr.scratch with ⟨hs, rfl⟩ | ⟨hs, hlen⟩
  · simp [hs, List.map_const']
  · have hrows : ((List.range n).map fun i => (rows.map ffiToTunnel)[i]?.elim default tunnelToFfi) =
        rows := by
      refine List.ext_getElem (by simp [hlen]) fun i hi hi' => ?_
      simp [hi', tunnelToFfi_ffiToTunnel]
    simp only [hs, hrows]

/-- The scratch copy of a sound handle holds something. -/
theorem Remembers.exists_scratch (hr : Remembers n rows h) : ∃ v, h.scratch = .sound v := by
  rcases hr.scratch with ⟨hs, -⟩ | ⟨hs, -⟩
  · exact ⟨_, hs⟩
  · exact ⟨_, hs⟩

/-- **One call**: an accepted one replaces what is remembered, any other one leaves it. -/
theorem Remembers.step {c : FfiCall} (hr : Remembers n rows h) (hn : 0 < n)
    (hc : h.returns p env c = true) (hstep : c.step p env h = .ok h') :
    Remembers n ((c.passed n).getD rows) h' := by
  obtain ⟨hcount, ⟨s, hs⟩, hscratch⟩ := id hr
  obtain ⟨v, hv⟩ := hr.exists_scratch
  subst hcount
  have hkeep : c.accepted h.backendCount = none → (c.passed h.backendCount).getD rows = rows := by
    intro hnone
    rw [FfiCall.passed, hnone]
    rfl
  cases step_effect hn hs hv hstep with
  | @selected _ addr metrics draw i s' haccepted _ =>
      have hpassed : c.passed h.backendCount = some metrics := by
        rw [FfiCall.passed, haccepted]
        rfl
      rw [hpassed]
      exact ⟨rfl, ⟨s', rfl⟩, .inr ⟨rfl, FfiCall.length_of_accepted haccepted⟩⟩
  | disabled haccepted herror =>
      simp [returns, hs, haccepted, herror, Except.isOk, Except.toBool] at hc
  | told => exact ⟨rfl, ⟨_, rfl⟩, hscratch⟩
  | silenced herror =>
      simp [returns, hs, FfiCall.accepted, herror, Except.isOk, Except.toBool] at hc
  | rebuilt hnone =>
      rw [hkeep hnone]
      exact ⟨rfl, ⟨_, rfl⟩, hscratch⟩
  | idle hnone =>
      rw [hkeep hnone]
      exact hr

/-- **A run of calls** leaves the last accepted input. -/
theorem run_remembers {calls : List FfiCall} (hr : Remembers n rows h) (hn : 0 < n)
    (hcalls : Along (FfiCall.step p env) (fun h c => h.returns p env c = true) h calls)
    (hrun : run (FfiCall.step p env) h calls = .ok h') :
    Remembers n ((calls.filterMap (FfiCall.passed n)).getLast?.getD rows) h' := by
  induction calls generalizing h rows with
  | nil =>
      cases hrun
      exact hr
  | cons c calls ih =>
      obtain ⟨h₁, hstep, hrest⟩ := run_cons_eq_ok.mp hrun
      have hlast := ih (hr.step hn hcalls.1 hstep) (hcalls.2 h₁ hstep) hrest
      cases hpassed : c.passed n with
      | none => simpa [hpassed] using hlast
      | some rows' =>
          rw [hpassed, Option.getD_some] at hlast
          simpa [hpassed, List.getLast?_cons] using hlast

/-- A new handle remembers zeros. -/
theorem create_remembers {m : UInt32} {kind : Int32} (hcreate : rotaLbCreate m kind = some h) :
    Remembers m.toNat (List.replicate m.toNat default) h := by
  obtain ⟨-, hcount, hscratch, k, hs⟩ := create_eq_some hcreate
  exact ⟨hcount, ⟨_, hs⟩, .inl ⟨hscratch, rfl⟩⟩

/-- **The read-back is exact.** After any calls on a new handle in which no strategy call
panicked, in a dev or a release build: `rota_lb_metrics` writes for each backend the values of
the most recent accepted `rota_lb_select`, or zeros if there was none; and no further call that
is not an accepted select changes what it writes. -/
theorem metrics_readback {m : UInt32} {kind : Int32} {calls : List FfiCall}
    (hcreate : rotaLbCreate m kind = some h)
    (hcalls : Along (FfiCall.step p env) (fun h c => h.returns p env c = true) h calls)
    (hrun : run (FfiCall.step p env) h calls = .ok h') :
    h'.rotaLbMetrics false false = (0, some (lastPassed m.toNat calls)) ∧
      ∀ c h'', c.accepted m.toNat = none → h'.returns p env c = true →
        c.step p env h' = .ok h'' →
        h''.rotaLbMetrics false false = h'.rotaLbMetrics false false := by
  have hm : 0 < m.toNat := UInt32.lt_iff_toNat_lt.mp (create_eq_some hcreate).1
  have hlast := run_remembers (create_remembers hcreate) hm hcalls hrun
  refine ⟨hlast.metrics, fun c h'' hnone hc hstep => ?_⟩
  have hnext := hlast.step hm hc hstep
  rw [FfiCall.passed, hnone, Option.map_none, Option.getD_none] at hnext
  rw [hnext.metrics, hlast.metrics]

/-- Two rows at the ends of the range of RTTs, with counters. -/
def extremes (i : ℕ) : FfiMetric :=
  if i = 0 then { rttUs := 0xFFFFFFFFFFFFFFFF, activeConnections := u32Max, totalDials := 7 }
  else { recentErrors := u32Max, totalErrors := 9 }

/-- An accepted select, one with a malformed address and one with a wrong count, a report, a
strategy that does not exist, one that does, and a reset. -/
def mixedCalls : List FfiCall :=
  [.select false (some (.utf8 "h:1")) (some extremes) 2 0,
    .select false (some .malformed) (some fun _ => default) 2 0,
    .select false (some (.utf8 "h:1")) (some fun _ => default) 3 0,
    .reportError false 0, .setStrategy false 99, .setStrategy false 6, .reset false]

/-- A new handle for two backends under `RoundRobin`. -/
def roundRobinPair : FfiLoadBalancer :=
  ⟨.sound (.roundRobin .new), 2, .roundRobin, .sound []⟩

/-- The values of the accepted select are read back. -/
theorem metrics_readback_mixedCalls :
    rotaLbCreate 2 0 = some roundRobinPair ∧
      ∃ h, run (FfiCall.step .dev Env.plain) roundRobinPair mixedCalls = .ok h ∧
        h.rotaLbMetrics false false = (0, some [extremes 0, extremes 1]) := by
  have hcreate : rotaLbCreate 2 0 = some roundRobinPair := rfl
  have hends : ends (FfiCall.step .dev Env.plain) (fun _ => true) roundRobinPair mixedCalls =
      true := by decide
  obtain ⟨h, hrun, -⟩ := exists_run_of_ends hends
  exact ⟨hcreate, h, hrun, (metrics_readback hcreate (by decide) hrun).1⟩

end FfiLoadBalancer

end RotaLb
