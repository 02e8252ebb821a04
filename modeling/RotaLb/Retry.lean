import RotaLb.Metrics

/-!
# Retry Policies

The `RetryPolicy` trait and the policies of the crate, the decision the dial loop takes with
them after a failed attempt, and how one call of `Backend::dial` ends. A policy may draw random
numbers (jitter), so its answer depends on a draw.
-/

namespace RotaLb

/-- The `RetryPolicy` trait. -/
structure RetryPolicy where
  /-- `should_retry`: the delay before another attempt, or `none` to give up. -/
  shouldRetry : (draw : Nat) → (attempt : UInt32) → Error → Option Duration
  totalTimeout : Option Duration := none
  maxAttempts : Option UInt32 := none

/-- `NoRetry`: fail on any error. -/
def RetryPolicy.noRetry : RetryPolicy where
  shouldRetry _ _ _ := none

/-- `FixedRetry`: a fixed delay, up to a number of attempts. -/
def RetryPolicy.fixedRetry (delay : Duration) (maxAttempts : Option UInt32) : RetryPolicy where
  shouldRetry _ attempt _ :=
    match maxAttempts with
    | some max => if max ≤ attempt then none else some delay
    | none => some delay
  maxAttempts := maxAttempts

/-- `ExponentialBackoff`: a delay that grows, up to a number of attempts. The floating-point delay
is any function of the draw and the attempt. -/
def RetryPolicy.exponentialBackoff (delay : Nat → UInt32 → Duration) (maxAttempts : Option UInt32) :
    RetryPolicy where
  shouldRetry draw attempt _ :=
    match maxAttempts with
    | some max => if max ≤ attempt then none else some (delay draw attempt)
    | none => some (delay draw attempt)
  maxAttempts := maxAttempts

/-- `RetryOnError`: the inner policy, for the errors the predicate accepts. -/
def RetryPolicy.retryOnError (inner : RetryPolicy) (predicate : Error → Bool) : RetryPolicy where
  shouldRetry draw attempt e :=
    if predicate e then inner.shouldRetry draw attempt e else none
  totalTimeout := inner.totalTimeout
  maxAttempts := inner.maxAttempts

/-- The decision of `dial_with_retry` after a failed attempt: the delay to sleep, or
`none` to return the error. `elapsed` is the time since the dial began. -/
def retryDelay (policy : Option RetryPolicy) (elapsed : Duration) (draw : Nat)
    (attempt : UInt32) (e : Error) : Option Duration :=
  policy.bind fun policy =>
    if policy.totalTimeout.all (elapsed < ·) then policy.shouldRetry draw attempt e else none

/-- A delay is granted within the budget, if the policy grants it. -/
theorem retryDelay_eq_some_iff {policy : RetryPolicy} {now draw : Nat} {attempt : UInt32}
    {e : Error} {delay : Duration} :
    retryDelay (some policy) (.ofNanos now) draw attempt e = some delay ↔
      (∀ T, policy.totalTimeout = some T → now < T.nanos) ∧
        policy.shouldRetry draw attempt e = some delay := by
  simp only [retryDelay, Option.bind_some]
  cases hT : policy.totalTimeout with
  | none => simp
  | some T => simp [Duration.ofNanos_lt]

/-- No delay is granted out of the budget, or if the policy gives up. -/
theorem retryDelay_eq_none_iff {policy : RetryPolicy} {now draw : Nat} {attempt : UInt32}
    {e : Error} :
    retryDelay (some policy) (.ofNanos now) draw attempt e = none ↔
      policy.shouldRetry draw attempt e = none ∨
        ∃ T, policy.totalTimeout = some T ∧ T.nanos ≤ now := by
  simp only [retryDelay, Option.bind_some]
  cases hT : policy.totalTimeout with
  | none => simp
  | some T =>
      by_cases hlt : now < T.nanos
      · simp [Duration.ofNanos_lt, hlt, not_le.mpr hlt]
      · simp [Duration.ofNanos_lt, hlt, not_lt.mp hlt]

/-- How one `Backend::dial` call ends, under `tokio::time::timeout` or without. -/
inductive Attempt
  | connected
  | failed (e : Error)
  | timedOut
  deriving DecidableEq

/-- The `conn_result` of an attempt: a timeout is reported as a backend error. It needs a
timeout to be set. -/
def Attempt.connResult (timeout : Option Duration) : Attempt → Option (Except Error Unit)
  | .connected => some (.ok ())
  | .failed e => some (.error e)
  | .timedOut => timeout.map fun _ => .error (.backend "dial timeout")

/-- The future of one `Backend::dial` call: how long it takes, if it ever ends, and what it returns
then. -/
structure DialFut where
  took : Option Duration
  answer : Except Error Unit

/-- The end of a call that ends by itself. -/
def DialFut.attempt (f : DialFut) : Attempt :=
  match f.answer with
  | .ok () => .connected
  | .error e => .failed e

/-- `tokio::time::timeout(t, dial_fut).await`, or `dial_fut.await` without a timeout: how the call
ends and after how long, or `none` if it never does. The call is polled before the timer. -/
def DialFut.awaited (timeout : Option Duration) (f : DialFut) : Option (Attempt × Duration) :=
  match timeout, f.took with
  | none, took => took.map fun d => (f.attempt, d)
  | some t, none => some (.timedOut, t)
  | some t, some d => some (if d ≤ t then (f.attempt, d) else (.timedOut, t))

/-- The `conn_result` of the call, and after how long. -/
def DialFut.connResult (timeout : Option Duration) (f : DialFut) :
    Option (Except Error Unit × Duration) :=
  match f.awaited timeout with
  | none => none
  | some (outcome, took) => (outcome.connResult timeout).map fun result => (result, took)

/-- The call ends by itself, or a timeout ends it. -/
def DialFut.Ends (timeout : Option Duration) (f : DialFut) : Prop :=
  timeout.isSome ∨ f.took.isSome

/-- A call that ends has a result. -/
theorem DialFut.Ends.connResult {timeout : Option Duration} {f : DialFut} (h : f.Ends timeout) :
    ∃ result took, f.connResult timeout = some (result, took) := by
  have hattempt : ∃ result, f.attempt.connResult timeout = some result := by
    unfold attempt
    split
    · exact ⟨_, rfl⟩
    · exact ⟨_, rfl⟩
  obtain ⟨result, hresult⟩ := hattempt
  unfold DialFut.connResult awaited
  cases timeout with
  | none =>
      cases htook : f.took with
      | none => simp [Ends, htook] at h
      | some d => exact ⟨result, d, by simp [hresult]⟩
  | some t =>
      cases f.took with
      | none => exact ⟨_, _, rfl⟩
      | some d =>
          by_cases hle : d ≤ t
          · exact ⟨result, d, by simp [hle, hresult]⟩
          · exact ⟨.error (.backend "dial timeout"), t, by simp [hle, Attempt.connResult]⟩

end RotaLb
