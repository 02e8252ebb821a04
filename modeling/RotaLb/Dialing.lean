import RotaLb.IndexSafety

/-!
# One Dial, From Its Pick to Its Return

`dial_with_retry` as a loop with a clock. A `Round` is what one turn of the loop meets: the call
of `Backend::dial` it makes, with the time that call takes, and what the policy draws. The state
of the loop records, beside its own variables, the backends whose `dial` was called so far.

`dialWithOptions` runs a whole dial with nothing in between: the pick, the loop, and the two
critical sections that record and report its result. It is one of the interleavings of
`RotaLb.World` (`dialWithOptions_run`).

## Main results

* `DialLoop.step_eq_ok`: **what one turn of the loop does**.
* `DialLoop.run_calls`: the calls a run has made, and the counter.
* `DialLoop.run_returned_or_waiting`, `DialLoop.givesUp_of_returned`: after some rounds the loop
  waits, or it has returned at one that was not retried.
* `dialWithOptions_run`: **a dial by itself is a run of the concurrent system**.
-/

namespace RotaLb

open Rust StepSystem

/-- What one turn of the loop meets. -/
structure Round where
  fut : DialFut
  draw : ℕ

/-- Where the loop stands. -/
inductive DialStage
  /-- The call number `attempt` has been made. -/
  | awaiting (attempt : UInt32)
  | returned (result : Except Error Unit)

/-- The state of `dial_with_retry`: the backends dialed so far, the nanoseconds since the dial
began at which the last call was made or the loop returned, and the stage. -/
structure DialLoop where
  dialed : List Backend
  clock : ℕ
  stage : DialStage

namespace DialLoop

/-- The head of the loop: count the attempt, index the backends and call `dial`. -/
def enter (p : Profile) (backends : List Backend) (idx : ℕ) (dialed : List Backend) (clock : ℕ)
    (attempt : UInt32) : Except Fault DialLoop :=
  match p.inc attempt with
  | .error panic => .error (.panic panic)
  | .ok attempt =>
    match Vec.get backends idx with
    | .error panic => .error (.panic panic)
    | .ok backend => .ok ⟨dialed ++ [backend], clock, .awaiting attempt⟩

/-- The loop before its first call returns. -/
def start (p : Profile) (backends : List Backend) (idx : ℕ) : Except Fault DialLoop :=
  enter p backends idx [] 0 0

/-- One turn of the loop, from a call to the next one or to the return. -/
def step (p : Profile) (backends : List Backend) (idx : ℕ) (timeout : Option Duration)
    (policy : Option RetryPolicy) (s : DialLoop) (r : Round) : Except Fault DialLoop :=
  match s.stage with
  | .returned _ => .error .disabled
  | .awaiting attempt =>
    match r.fut.connResult timeout with
    | none => .error .disabled
    | some (.ok (), took) => .ok ⟨s.dialed, s.clock + took.nanos, .returned (.ok ())⟩
    | some (.error e, took) =>
      let now := s.clock + took.nanos
      match retryDelay policy (.ofNanos now) r.draw attempt e with
      | none => .ok ⟨s.dialed, now, .returned (.error e)⟩
      | some delay => enter p backends idx s.dialed (now + delay.nanos) attempt

end DialLoop

/-- What a dial leaves: its result, the balancer, and the calls it made. -/
structure Dialed (σ : Type) where
  result : Except Error Unit
  lb : LoadBalancer σ
  dialed : List Backend

namespace LoadBalancer

variable {σ : Type}

/-- `dial_with_retry`, after these rounds. The per-call timeout and policy are used if given, those
of the balancer otherwise. -/
def dialWithRetry (p : Profile) (lb : LoadBalancer σ) (idx : ℕ) (dialTimeout : Option Duration)
    (retryPolicy : Option RetryPolicy) (rounds : List Round) : Except Fault DialLoop := do
  let s ← DialLoop.start p lb.backends idx
  run (DialLoop.step p lb.backends idx (dialTimeout.or lb.dialTimeout)
    (retryPolicy.or lb.retryPolicy)) s rounds

variable [BalanceStrategy σ]

/-- `handle_dial_success` or `handle_dial_error`. -/
def handleResult (lb : LoadBalancer σ) (idx : ℕ) : Except Error Unit → Except Panic (LoadBalancer σ)
  | .ok () => (lb.handleDialSuccess idx).reportSuccess idx
  | .error _ => (lb.handleDialError idx).reportError idx

/-- `dial_with_options` by itself. The rounds are those of its loop, up to the return. -/
def dialWithOptions (p : Profile) (env : Env) (draw : ℕ) (lb : LoadBalancer σ) (addr : String)
    (dialTimeout : Option Duration) (retryPolicy : Option RetryPolicy) (rounds : List Round) :
    Except Fault (Dialed σ) :=
  match lb.beginDial env draw addr with
  | .error panic => .error (.panic panic)
  | .ok (.refused e) => .ok ⟨.error e, lb, []⟩
  | .ok (.picked idx _ _ lb) => do
    let s ← lb.dialWithRetry p idx dialTimeout retryPolicy rounds
    match s.stage with
    | .awaiting _ => .error .disabled
    | .returned result =>
      match lb.handleResult idx result with
      | .error panic => .error (.panic panic)
      | .ok lb => .ok ⟨result, lb, s.dialed⟩

end LoadBalancer

/-! ### The loop -/

/-- The delay granted after an attempt that ended with this result. -/
def delayAfter (policy : Option RetryPolicy) (elapsed : Duration) (draw : ℕ) (attempt : UInt32) :
    Except Error Unit → Option Duration
  | .ok () => none
  | .error e => retryDelay policy elapsed draw attempt e

namespace DialLoop

variable {p : Profile} {backends : List Backend} {idx : ℕ} {timeout : Option Duration}
  {policy : Option RetryPolicy} {s s' : DialLoop} {r : Round}

/-- The head of the loop makes a call unless the counter overflows or the index is out of range. -/
theorem enter_eq_ok {dialed : List Backend} {clock : ℕ} {attempt : UInt32} :
    enter p backends idx dialed clock attempt = .ok s ↔
      ∃ n b, p.inc attempt = .ok n ∧ backends[idx]? = some b ∧
        s = ⟨dialed ++ [b], clock, .awaiting n⟩ := by
  rw [enter]
  cases p.inc attempt with
  | error panic => simp
  | ok n =>
      cases hb : Vec.get backends idx with
      | error panic =>
          have hnone : ¬ ∃ b, backends[idx]? = some b := by
            rintro ⟨b, h⟩
            cases hb.symm.trans (Vec.get_eq_ok.mpr h)
          simp only [reduceCtorEq, false_iff]
          rintro ⟨n', b, -, h, -⟩
          exact hnone ⟨b, h⟩
      | ok b =>
          rw [Vec.get_eq_ok] at hb
          simp [hb, eq_comm]

/-- **One turn of the loop**: the call ends, and the loop returns its result or makes another call
after the delay granted. -/
theorem step_eq_ok :
    step p backends idx timeout policy s r = .ok s' ↔
      ∃ attempt result took, s.stage = .awaiting attempt ∧
        r.fut.connResult timeout = some (result, took) ∧
        ((delayAfter policy (.ofNanos (s.clock + took.nanos)) r.draw attempt result = none ∧
            s' = ⟨s.dialed, s.clock + took.nanos, .returned result⟩) ∨
          ∃ delay, delayAfter policy (.ofNanos (s.clock + took.nanos)) r.draw attempt result =
              some delay ∧
            enter p backends idx s.dialed (s.clock + took.nanos + delay.nanos) attempt =
              .ok s') := by
  rw [step]
  cases s.stage with
  | returned result => simp
  | awaiting attempt =>
      cases r.fut.connResult timeout with
      | none => simp
      | some x =>
          obtain ⟨result, took⟩ := x
          cases result with
          | ok u => simp [delayAfter, eq_comm]
          | error e =>
              simp only [delayAfter]
              cases hdelay : retryDelay policy (.ofNanos (s.clock + took.nanos)) r.draw attempt
                e with
              | none => simp [hdelay, eq_comm]
              | some delay => simp [hdelay]

/-- A turn after which the loop waits again was granted a delay, and slept for it. -/
theorem step_awaiting {n : UInt32} (hstep : step p backends idx timeout policy s r = .ok s')
    (hstage : s'.stage = .awaiting n) :
    ∃ attempt result took delay, s.stage = .awaiting attempt ∧
      r.fut.connResult timeout = some (result, took) ∧
      delayAfter policy (.ofNanos (s.clock + took.nanos)) r.draw attempt result = some delay ∧
      s'.clock = s.clock + took.nanos + delay.nanos := by
  obtain ⟨attempt, result, took, hs, hres, hcase⟩ := step_eq_ok.mp hstep
  rcases hcase with ⟨-, rfl⟩ | ⟨delay, hdelay, henter⟩
  · cases hstage
  · obtain ⟨n, b, -, -, rfl⟩ := enter_eq_ok.mp henter
    exact ⟨attempt, result, took, delay, hs, hres, hdelay, rfl⟩

/-- A turn that is granted a delay leads to a call after it. -/
theorem step_granted {attempt : UInt32} {result : Except Error Unit} {took delay : Duration}
    (hstage : s.stage = .awaiting attempt) (hres : r.fut.connResult timeout = some (result, took))
    (hdelay : delayAfter policy (.ofNanos (s.clock + took.nanos)) r.draw attempt result =
      some delay) (hstep : step p backends idx timeout policy s r = .ok s') :
    ∃ n, s'.stage = .awaiting n ∧ s'.clock = s.clock + took.nanos + delay.nanos := by
  obtain ⟨attempt', result', took', hs, hres', hcase⟩ := step_eq_ok.mp hstep
  cases hstage.symm.trans hs
  cases hres.symm.trans hres'
  rcases hcase with ⟨hnone, -⟩ | ⟨delay', hdelay', henter⟩
  · cases hdelay.symm.trans hnone
  · cases hdelay.symm.trans hdelay'
    obtain ⟨n, b, -, -, rfl⟩ := enter_eq_ok.mp henter
    exact ⟨n, rfl, rfl⟩

/-- The round, if its call fails, is not retried: the policy gives up, or its budget is used up. -/
def GivesUp (timeout : Option Duration) (policy : RetryPolicy) (s : DialLoop) (r : Round) : Prop :=
  ∀ attempt e took, s.stage = .awaiting attempt →
    r.fut.connResult timeout = some (.error e, took) →
    policy.shouldRetry r.draw attempt e = none ∨
      ∃ T, policy.totalTimeout = some T ∧ T.nanos ≤ s.clock + took.nanos

section Turns

variable {policy : RetryPolicy} {attempt : UInt32} {result : Except Error Unit} {took : Duration}

/-- No delay is granted exactly when the round is not retried. -/
theorem givesUp_iff (hstage : s.stage = .awaiting attempt)
    (hres : r.fut.connResult timeout = some (result, took)) :
    GivesUp timeout policy s r ↔
      delayAfter (some policy) (.ofNanos (s.clock + took.nanos)) r.draw attempt result = none := by
  cases result with
  | ok u => simp [GivesUp, delayAfter, hres]
  | error e => simp [GivesUp, delayAfter, hstage, hres, retryDelay_eq_none_iff]

/-- A round that is not retried ends the loop with its result. -/
theorem step_settled (hstage : s.stage = .awaiting attempt)
    (hres : r.fut.connResult timeout = some (result, took)) (hgives : GivesUp timeout policy s r) :
    step p backends idx timeout (some policy) s r =
      .ok ⟨s.dialed, s.clock + took.nanos, .returned result⟩ :=
  step_eq_ok.mpr ⟨attempt, result, took, hstage, hres,
    .inl ⟨(givesUp_iff hstage hres).mp hgives, rfl⟩⟩

/-- A round that is retried leads to another call, as long as the counter does not overflow. -/
theorem step_retried (p : Profile) {b : Backend} (hb : backends[idx]? = some b)
    (hstage : s.stage = .awaiting attempt) (hmax : attempt ≠ 0xFFFFFFFF)
    (hends : r.fut.Ends timeout) (hgo : ¬ GivesUp timeout policy s r) :
    ∃ clock, step p backends idx timeout (some policy) s r =
      .ok ⟨s.dialed ++ [b], clock, .awaiting (attempt + 1)⟩ := by
  obtain ⟨result, took, hres⟩ := hends.connResult
  rw [givesUp_iff hstage hres, ← ne_eq, Option.ne_none_iff_exists'] at hgo
  obtain ⟨delay, hdelay⟩ := hgo
  refine ⟨s.clock + took.nanos + delay.nanos, step_eq_ok.mpr ⟨attempt, result, took, hstage, hres,
    .inr ⟨delay, hdelay, enter_eq_ok.mpr ⟨attempt + 1, b, ?_, hb, rfl⟩⟩⟩⟩
  exact inc_eq_ok.mpr (.inl ⟨hmax, rfl⟩)

/-- A turn that returns was not retried. -/
theorem GivesUp.of_step (hstep : step p backends idx timeout (some policy) s r = .ok s')
    (hreturned : s'.stage = .returned result) : GivesUp timeout policy s r := by
  obtain ⟨attempt, result, took, hstage, hres, hcase⟩ := step_eq_ok.mp hstep
  rcases hcase with ⟨hnone, -⟩ | ⟨delay, -, henter⟩
  · exact (givesUp_iff hstage hres).mpr hnone
  · obtain ⟨n, b, -, -, rfl⟩ := enter_eq_ok.mp henter
    cases hreturned

end Turns

/-- The loop begins with a call of the backend at the index. -/
theorem start_eq_ok {b : Backend} (hb : backends[idx]? = some b) :
    start p backends idx = .ok ⟨[b], 0, .awaiting 1⟩ :=
  enter_eq_ok.mpr ⟨1, b, inc_eq_ok.mpr (.inl ⟨by decide, rfl⟩), hb, rfl⟩

/-- A loop that has returned takes no further turn. -/
theorem run_of_returned {result : Except Error Unit} (h : s.stage = .returned result)
    {rs : List Round} (hrun : run (step p backends idx timeout policy) s rs = .ok s') :
    rs = [] := by
  cases rs with
  | nil => rfl
  | cons r rs =>
      obtain ⟨s₁, hstep, -⟩ := run_cons_eq_ok.mp hrun
      obtain ⟨attempt, -, -, hstage, -⟩ := step_eq_ok.mp hstep
      cases h.symm.trans hstage

/-- The calls made after these turns: one more than the turns while the loop waits, all of them
calls of one backend, and the counter counts them. -/
def Calls (b : Backend) (rs : List Round) (s : DialLoop) : Prop :=
  match s.stage with
  | .awaiting attempt =>
    s.dialed = List.replicate (rs.length + 1) b ∧ attempt.toNat = (rs.length + 1) % 2 ^ 32
  | .returned _ => s.dialed = List.replicate rs.length b

/-- **The calls of a dial.** -/
theorem run_calls {b : Backend} (hb : backends[idx]? = some b) {rs : List Round}
    (hrun : run (step p backends idx timeout policy) ⟨[b], 0, .awaiting 1⟩ rs = .ok s) :
    Calls b rs s := by
  have hstart : Calls b [] ⟨[b], 0, .awaiting 1⟩ := ⟨rfl, rfl⟩
  refine run_history hstart (fun rs s r s' h hstep => ?_) hrun
  obtain ⟨attempt, result, took, hstage, -, hcase⟩ := step_eq_ok.mp hstep
  rw [Calls, hstage] at h
  obtain ⟨hdialed, hattempt⟩ := h
  rcases hcase with ⟨-, rfl⟩ | ⟨delay, -, henter⟩
  · rw [Calls, List.length_append]
    exact hdialed
  · obtain ⟨n, b', hinc, hb', rfl⟩ := enter_eq_ok.mp henter
    cases hb.symm.trans hb'
    refine ⟨?_, ?_⟩
    · rw [hdialed, List.length_append, List.length_singleton, ← List.replicate_succ']
    · rw [List.length_append, List.length_singleton]
      rcases inc_eq_ok.mp hinc with ⟨hmax, rfl⟩ | ⟨hmax, -, rfl⟩
      · have hlt := (attempt + 1).toNat_lt
        rw [toNat_add_one hmax] at hlt ⊢
        omega
      · have hval : attempt.toNat = 2 ^ 32 - 1 := by rw [hmax]; rfl
        rw [UInt32.toNat_zero]
        omega

end DialLoop

namespace LoadBalancer

variable {σ : Type} {p : Profile} {lb : LoadBalancer σ} {idx : ℕ} {b : Backend}
  {dialTimeout : Option Duration} {retryPolicy : Option RetryPolicy} {rounds : List Round}

/-- The loop begins with a call of the backend at the index. -/
theorem dialWithRetry_eq (hb : lb.backends[idx]? = some b) :
    lb.dialWithRetry p idx dialTimeout retryPolicy rounds =
      run (DialLoop.step p lb.backends idx (dialTimeout.or lb.dialTimeout)
        (retryPolicy.or lb.retryPolicy)) ⟨[b], 0, .awaiting 1⟩ rounds := by
  rw [dialWithRetry, DialLoop.start_eq_ok hb]
  rfl

/-- What the result of a dial records in the metrics. -/
def recordResult : Except Error Unit → TunnelMetrics → TunnelMetrics
  | .ok () => recordSuccess
  | .error _ => recordError

variable [BalanceStrategy σ]

/-- What the strategy is told about the result of a dial. -/
def reportResult (strategy : σ) (idx : ℕ) : Except Error Unit → Except Panic σ
  | .ok () => BalanceStrategy.reportSuccess strategy idx
  | .error _ => BalanceStrategy.reportError strategy idx

/-- A lawful strategy takes every report. -/
theorem exists_reportResult [LawfulStrategy σ] {strategy : σ} (h : LawfulStrategy.Good strategy)
    (idx : ℕ) (result : Except Error Unit) :
    ∃ strategy', reportResult strategy idx result = .ok strategy' := by
  cases result with
  | ok u =>
      obtain ⟨strategy', hreport, -⟩ := LawfulStrategy.reportSuccess_ok idx h
      exact ⟨strategy', hreport⟩
  | error e =>
      obtain ⟨strategy', hreport, -⟩ := LawfulStrategy.reportError_ok idx h
      exact ⟨strategy', hreport⟩

/-- A result is recorded in one slot and reported once. -/
theorem handleResult_eq {result : Except Error Unit} {strategy : σ}
    (h : reportResult lb.strategy idx result = .ok strategy) :
    lb.handleResult idx result =
      .ok { lb with metrics := lb.metrics.modify idx (recordResult result), strategy } := by
  cases result with
  | ok u => exact bind_eq_ok.mpr ⟨strategy, h, rfl⟩
  | error e => exact bind_eq_ok.mpr ⟨strategy, h, rfl⟩

/-- A dial that was picked, looped and reported returns. -/
theorem dialWithOptions_eq_ok {env : Env} {draw : ℕ} {addr : String} {gen : UInt64}
    {lb₁ lb₂ : LoadBalancer σ} {s : DialLoop} {result : Except Error Unit}
    (hbegin : lb.beginDial env draw addr = .ok (.picked idx b gen lb₁))
    (hloop : lb₁.dialWithRetry p idx dialTimeout retryPolicy rounds = .ok s)
    (hstage : s.stage = .returned result) (hhandle : lb₁.handleResult idx result = .ok lb₂) :
    lb.dialWithOptions p env draw addr dialTimeout retryPolicy rounds =
      .ok ⟨result, lb₂, s.dialed⟩ := by
  rw [dialWithOptions, hbegin]
  refine bind_eq_ok.mpr ⟨s, hloop, ?_⟩
  simp only [hstage, hhandle]

end LoadBalancer

/-- The first rounds of a stream, which is numbered from 1 as the attempts are. -/
def firstRounds (rounds : ℕ → Round) (n : ℕ) : List Round :=
  (List.range n).map fun i => rounds (i + 1)

theorem firstRounds_succ (rounds : ℕ → Round) (n : ℕ) :
    firstRounds rounds (n + 1) = firstRounds rounds n ++ [rounds (n + 1)] := by
  rw [firstRounds, List.range_succ, List.map_append]
  rfl

@[simp] theorem length_firstRounds (rounds : ℕ → Round) (n : ℕ) :
    (firstRounds rounds n).length = n := by
  simp [firstRounds]

theorem take_firstRounds (rounds : ℕ → Round) {i n : ℕ} (h : i ≤ n) :
    (firstRounds rounds n).take i = firstRounds rounds i := by
  rw [firstRounds, ← List.map_take, List.take_range, Nat.min_eq_left h]
  rfl

namespace DialLoop

variable {p : Profile} {backends : List Backend} {idx : ℕ} {b : Backend} {timeout : Option Duration}
  {policy : RetryPolicy} {rounds : ℕ → Round}

/-- After some turns the loop has returned, or it waits for the next call, which is counted. -/
theorem run_returned_or_waiting (p : Profile) (policy : RetryPolicy) (hb : backends[idx]? = some b)
    (hends : ∀ n, (rounds n).fut.Ends timeout) (j : ℕ) (hj : j + 1 < 2 ^ 32) :
    (∃ i ≤ j, ∃ clock result,
      run (step p backends idx timeout (some policy)) ⟨[b], 0, .awaiting 1⟩
        (firstRounds rounds i) = .ok ⟨List.replicate i b, clock, .returned result⟩) ∨
    ∃ clock attempt, attempt.toNat = j + 1 ∧
      run (step p backends idx timeout (some policy)) ⟨[b], 0, .awaiting 1⟩
        (firstRounds rounds j) = .ok ⟨List.replicate (j + 1) b, clock, .awaiting attempt⟩ := by
  induction j with
  | zero => exact .inr ⟨0, 1, rfl, rfl⟩
  | succ j ih =>
      rcases ih (by omega) with ⟨i, hi, hreturned⟩ | ⟨clock, attempt, hattempt, hrun⟩
      · exact .inl ⟨i, by omega, hreturned⟩
      have hmax : attempt ≠ 0xFFFFFFFF := ne_max_of_toNat_lt (by omega)
      obtain ⟨result, took, hres⟩ := (hends (j + 1)).connResult
      by_cases hgives : GivesUp timeout policy ⟨List.replicate (j + 1) b, clock, .awaiting attempt⟩
          (rounds (j + 1))
      · refine .inl ⟨j + 1, le_rfl, clock + took.nanos, result, ?_⟩
        rw [firstRounds_succ]
        exact run_append.mpr ⟨_, hrun, run_cons_eq_ok.mpr ⟨_, step_settled rfl hres hgives, rfl⟩⟩
      · obtain ⟨clock', hstep⟩ := step_retried p hb rfl hmax (hends (j + 1)) hgives
        refine .inr ⟨clock', attempt + 1, ?_, ?_⟩
        · rw [toNat_add_one hmax, hattempt]
        · rw [firstRounds_succ, List.replicate_succ']
          exact run_append.mpr ⟨_, hrun, run_cons_eq_ok.mpr ⟨_, hstep, rfl⟩⟩

/-- A loop that has returned did so at a round that was not retried. -/
theorem givesUp_of_returned (hb : backends[idx]? = some b) {i : ℕ} (hi : i < 2 ^ 32) {s' : DialLoop}
    {result : Except Error Unit}
    (hrun : run (step p backends idx timeout (some policy)) ⟨[b], 0, .awaiting 1⟩
      (firstRounds rounds i) = .ok s') (hreturned : s'.stage = .returned result) :
    ∃ j s attempt, i = j + 1 ∧
      run (step p backends idx timeout (some policy)) ⟨[b], 0, .awaiting 1⟩
        (firstRounds rounds j) = .ok s ∧
      s.stage = .awaiting attempt ∧ attempt.toNat = j + 1 ∧
      GivesUp timeout policy s (rounds (j + 1)) := by
  cases i with
  | zero =>
      cases hrun
      cases hreturned
  | succ j =>
      rw [firstRounds_succ] at hrun
      obtain ⟨s, hs, hlast⟩ := run_append.mp hrun
      obtain ⟨_, hstep, hret⟩ := run_cons_eq_ok.mp hlast
      cases hret
      obtain ⟨attempt, -, -, hstage, -⟩ := step_eq_ok.mp hstep
      have hcalls := run_calls hb hs
      rw [Calls, hstage, length_firstRounds, Nat.mod_eq_of_lt hi] at hcalls
      exact ⟨j, s, attempt, rfl, hs, hstage, hcalls.2, .of_step hstep hreturned⟩

end DialLoop

/-! ### The dial in the concurrent system -/

/-- The await point of a dial whose loop stands here. -/
def DialStage.phase : DialStage → Phase
  | .awaiting attempt => .awaitDial attempt
  | .returned (.ok ()) => .successMetrics
  | .returned (.error e) => .errorMetrics e

/-- A call of `Backend::dial` ends. -/
def Event.isAttempt {σ : Type} : Event σ → Bool
  | .attempted .. => true
  | _ => false

namespace World

variable {σ : Type} {w : World σ} {k : ℕ} {d : Dial}

/-- An event on the item at a position. -/
theorem onItem_of_getElem? {α : Type} {l : List α} {a : α} (h : l[k]? = some a)
    (f : α → Except Fault (World σ)) : onItem l k f = f a := by
  rw [onItem, h]

/-- A dial that was moved stands there. -/
theorem dials_goto (hd : w.dials[k]? = some d) (phase : Phase) :
    (w.goto k d phase).dials[k]? = some { d with phase } :=
  List.getElem?_set_self (List.getElem?_eq_some_iff.mp hd).1

/-- Moving a dial twice moves it to the second place. -/
theorem goto_goto (phase phase' : Phase) :
    (w.goto k d phase).goto k { d with phase } phase' = w.goto k d phase' := by
  simp [goto, List.set_set]

variable [BalanceStrategy σ] (env : Env)

/-- **One turn of the loop** is the end of an attempt, followed by the end of the sleep if it is
retried. -/
theorem step_simulates {s s' : DialLoop} {r : Round} (hd : w.dials[k]? = some d)
    (hphase : d.phase = s.stage.phase)
    (hstep : DialLoop.step .release w.lb.backends d.index d.timeout d.policy s r = .ok s') :
    ∃ es, run (step env) w es = .ok (w.goto k d s'.stage.phase) ∧
      es.countP Event.isAttempt = 1 := by
  obtain ⟨attempt, result, took, hstage, hres, hcase⟩ := DialLoop.step_eq_ok.mp hstep
  rw [hstage] at hphase
  obtain ⟨outcome, houtcome⟩ : ∃ outcome : Attempt, outcome.connResult d.timeout = some result := by
    rw [DialFut.connResult] at hres
    split at hres
    · cases hres
    · obtain ⟨x, hx, hpair⟩ := Option.map_eq_some_iff.mp hres
      cases hpair
      exact ⟨_, hx⟩
  have hattempted (phase : Phase)
      (h : afterAttempt d attempt outcome (.ofNanos (s.clock + took.nanos)) r.draw = some phase) :
      w.step env (.attempted k outcome (.ofNanos (s.clock + took.nanos)) r.draw) =
        .ok (w.goto k d phase) := by
    rw [step, onItem_of_getElem? hd, attempted, hphase]
    simp only [DialStage.phase, h]
  rcases hcase with ⟨hnone, rfl⟩ | ⟨delay, hdelay, henter⟩
  · refine ⟨[.attempted k outcome (.ofNanos (s.clock + took.nanos)) r.draw], ?_, rfl⟩
    refine run_cons_eq_ok.mpr ⟨_, hattempted _ ?_, rfl⟩
    cases result with
    | ok u => simp [afterAttempt, houtcome, DialStage.phase]
    | error e =>
        rw [delayAfter] at hnone
        simp [afterAttempt, houtcome, hnone, DialStage.phase]
  · obtain ⟨n, b, hinc, hb, rfl⟩ := DialLoop.enter_eq_ok.mp henter
    have hsleep : afterAttempt d attempt outcome (.ofNanos (s.clock + took.nanos)) r.draw =
        some (.awaitSleep attempt) := by
      cases result with
      | ok u => cases hdelay
      | error e =>
          rw [delayAfter] at hdelay
          simp [afterAttempt, houtcome, hdelay]
    have hwoke : (w.goto k d (.awaitSleep attempt)).step env (.woke k) =
        .ok (w.goto k d (.awaitDial n)) := by
      have hn : n = attempt + 1 := by
        rcases inc_eq_ok.mp hinc with ⟨-, rfl⟩ | ⟨rfl, -, rfl⟩
        · rfl
        · rfl
      rw [step, onItem_of_getElem? (dials_goto hd _), woke]
      simp only [goto, Vec.get_eq_ok.mpr hb, List.set_set, hn]
    refine ⟨[.attempted k outcome (.ofNanos (s.clock + took.nanos)) r.draw, .woke k], ?_, rfl⟩
    exact run_cons_eq_ok.mpr ⟨_, hattempted _ hsleep, run_cons_eq_ok.mpr ⟨_, hwoke, rfl⟩⟩

/-- **The whole loop** is a run in which the attempts end one after the other. -/
theorem run_simulates {s s' : DialLoop} {rounds : List Round} (hd : w.dials[k]? = some d)
    (hphase : d.phase = s.stage.phase)
    (hrun : run (DialLoop.step .release w.lb.backends d.index d.timeout d.policy) s rounds =
      .ok s') :
    ∃ es, run (step env) w es = .ok (w.goto k d s'.stage.phase) ∧
      es.countP Event.isAttempt = rounds.length := by
  induction rounds generalizing w d s with
  | nil =>
      cases hrun
      have hself : w.dials.set k d = w.dials := by
        obtain ⟨hlt, rfl⟩ := List.getElem?_eq_some_iff.mp hd
        exact List.set_getElem_self hlt
      have hstays : w.goto k d d.phase = w := by
        rw [goto, hself]
      refine ⟨[], ?_, rfl⟩
      rw [← hphase, hstays, run_nil]
  | cons r rounds ih =>
      obtain ⟨s₁, hstep, hrest⟩ := run_cons_eq_ok.mp hrun
      obtain ⟨es, hes, hcount⟩ := step_simulates env hd hphase hstep
      obtain ⟨fs, hfs, hcount'⟩ := ih (dials_goto hd s₁.stage.phase) rfl hrest
      refine ⟨es ++ fs, run_append.mpr ⟨_, hes, ?_⟩, ?_⟩
      · rw [hfs, goto_goto]
      · rw [List.countP_append, hcount, hcount', List.length_cons, Nat.add_comm]

/-- The two critical sections after the loop record and report its result. -/
theorem handleResult_run {result : Except Error Unit} {lb : LoadBalancer σ}
    (hd : w.dials[k]? = some d) (hphase : d.phase = (DialStage.returned result).phase)
    (hhandle : w.lb.handleResult d.index result = .ok lb) :
    ∃ w', run (step env) w [.lockMetrics k, .lockStrategy k] = .ok w' ∧ w'.lb = lb ∧
      w'.dials = w.dials.eraseIdx k := by
  cases result with
  | ok u =>
      set w₁ := { w with lb := w.lb.handleDialSuccess d.index }.goto k d .successStrategy
      have hmetrics : w.step env (.lockMetrics k) = .ok w₁ := by
        rw [step, onItem_of_getElem? hd, lockMetrics, hphase]
        rfl
      have hd₁ : w₁.dials[k]? = some { d with phase := .successStrategy } := dials_goto hd _
      have hreport : w₁.lb.reportSuccess d.index = .ok lb := hhandle
      have hstrategy : w₁.step env (.lockStrategy k) = .ok { w₁ with
          lb
          dials := w₁.dials.eraseIdx k
          guards := w₁.guards ++ [⟨⟨d.index, d.gen⟩, d.owner, w₁.epoch⟩] } := by
        rw [step, onItem_of_getElem? hd₁, lockStrategy]
        simp only [hreport]
      exact ⟨_, run_cons_eq_ok.mpr ⟨_, hmetrics, run_cons_eq_ok.mpr ⟨_, hstrategy, rfl⟩⟩, rfl,
        List.eraseIdx_set_eq⟩
  | error e =>
      set w₁ := { w with lb := w.lb.handleDialError d.index }.goto k d (.errorStrategy e)
      have hmetrics : w.step env (.lockMetrics k) = .ok w₁ := by
        rw [step, onItem_of_getElem? hd, lockMetrics, hphase]
        rfl
      have hd₁ : w₁.dials[k]? = some { d with phase := .errorStrategy e } := dials_goto hd _
      have hreport : w₁.lb.reportError d.index = .ok lb := hhandle
      have hstrategy : w₁.step env (.lockStrategy k) =
          .ok { w₁ with lb, dials := w₁.dials.eraseIdx k } := by
        rw [step, onItem_of_getElem? hd₁, lockStrategy]
        simp only [hreport]
      exact ⟨_, run_cons_eq_ok.mpr ⟨_, hmetrics, run_cons_eq_ok.mpr ⟨_, hstrategy, rfl⟩⟩, rfl,
        List.eraseIdx_set_eq⟩

/-- **A dial by itself is a run of the concurrent system**, with as many ended attempts as it made
calls. It leaves the balancer that `dialWithOptions` returns, and the other dials as they are. -/
theorem dialWithOptions_run {draw : ℕ} {addr : String} {dialTimeout : Option Duration}
    {retryPolicy : Option RetryPolicy} {rounds : List Round} {out : Dialed σ}
    (h : w.lb.dialWithOptions .release env draw addr dialTimeout retryPolicy rounds = .ok out) :
    ∃ es w', run (step env) w es = .ok w' ∧ w'.lb = out.lb ∧ w'.dials = w.dials ∧
      es.countP Event.isAttempt = out.dialed.length := by
  rw [LoadBalancer.dialWithOptions] at h
  split at h
  · cases h
  · -- refused: nothing happens
    rename_i e hbegin
    cases h
    refine ⟨[.start addr dialTimeout retryPolicy draw], w, ?_, rfl, rfl, rfl⟩
    exact run_cons_eq_ok.mpr ⟨w, by rw [step, start, hbegin], rfl⟩
  · rename_i idx backend gen lb hbegin
    obtain ⟨s, hloop, h⟩ := bind_eq_ok.mp h
    obtain ⟨s₀, hstart, hrun⟩ := bind_eq_ok.mp hloop
    obtain ⟨-, b, -, hb, -⟩ := DialLoop.enter_eq_ok.mp hstart
    cases hstart.symm.trans (DialLoop.start_eq_ok hb)
    -- the dial takes the place after those in progress
    set d : Dial := ⟨backend.tag, idx, gen, dialTimeout.or lb.dialTimeout,
      retryPolicy.or lb.retryPolicy, .awaitDial 1⟩
    set w₁ : World σ := { w with
      lb, dials := w.dials ++ [d], log := w.log ++ [.routed backend.tag] }
    have hstep : w.step env (.start addr dialTimeout retryPolicy draw) = .ok w₁ := by
      rw [step, start, hbegin]
    have hd : w₁.dials[w.dials.length]? = some d := List.getElem?_concat_length
    obtain ⟨es, hes, hcount⟩ := run_simulates env hd rfl hrun
    split at h
    · cases h
    · rename_i result hstage
      split at h
      · cases h
      · rename_i lb₂ hhandle
        cases h
        rw [hstage] at hes
        obtain ⟨w', hlast, hlb, hdials⟩ := handleResult_run env
          (dials_goto hd (DialStage.returned result).phase) rfl hhandle
        refine ⟨.start addr dialTimeout retryPolicy draw ::
          (es ++ [.lockMetrics w.dials.length, .lockStrategy w.dials.length]), w',
          run_cons_eq_ok.mpr ⟨w₁, hstep, run_append.mpr ⟨_, hes, hlast⟩⟩, hlb, ?_, ?_⟩
        · rw [hdials, goto, List.eraseIdx_set_eq, List.eraseIdx_append_of_length_le le_rfl,
            Nat.sub_self]
          exact List.append_nil _
        · have hcalls := DialLoop.run_calls hb hrun
          rw [DialLoop.Calls, hstage] at hcalls
          rw [hcalls, List.length_replicate, ← hcount]
          simp [Event.isAttempt]

end World

end RotaLb
