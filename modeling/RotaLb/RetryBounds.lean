import Mathlib.Data.Nat.Find
import Mathlib.Order.Bounds.Basic
import RotaLb.Dialing

/-!
# How Often and How Long a Dial Retries

Three contracts of the retry loop, over every sequence of rounds.

* The crate's own policies stop: a dial with one of them calls the picked backend until an
  attempt succeeds, the limit is reached or a predicate rejects the error, and records and
  reports one result (`dialWithOptions_exact`).
* `max_attempts` is not read by the loop: it bounds the calls of another policy exactly when
  that policy itself gives up there (`attempts_bounded_iff`).
* `total_timeout` is compared before the back-off sleep: the calls start within it exactly when
  every granted delay fits into what is left (`budget_kept_iff`).
-/

namespace RotaLb

open Rust StepSystem

/-! ### The policies of the crate -/

/-- A policy built from those of the crate, with the number of attempts it allows and the
predicates it is wrapped in. -/
inductive RetryPolicy.Built : RetryPolicy → ℕ → List (Error → Bool) → Prop
  | noRetry : Built .noRetry 1 []
  | fixedRetry (delay : Duration) (m : UInt32) :
      Built (.fixedRetry delay (some m)) (max m.toNat 1) []
  | exponentialBackoff (delay : ℕ → UInt32 → Duration) (m : UInt32) :
      Built (.exponentialBackoff delay (some m)) (max m.toNat 1) []
  | retryOnError {policy : RetryPolicy} {limit : ℕ} {predicates : List (Error → Bool)}
      (h : Built policy limit predicates) (predicate : Error → Bool) :
      Built (policy.retryOnError predicate) limit (predicate :: predicates)

namespace RetryPolicy.Built

variable {policy : RetryPolicy} {limit : ℕ} {predicates : List (Error → Bool)}

/-- Every policy allows an attempt, and no more than the counter can count. -/
theorem limit_bounds (h : Built policy limit predicates) : 1 ≤ limit ∧ limit < 2 ^ 32 := by
  induction h with
  | noRetry => omega
  | fixedRetry _ m | exponentialBackoff _ m =>
      have := m.toNat_lt
      omega
  | retryOnError _ _ ih => exact ih

/-- None of them has a budget. -/
theorem totalTimeout_eq (h : Built policy limit predicates) : policy.totalTimeout = none := by
  induction h with
  | noRetry | fixedRetry | exponentialBackoff => rfl
  | retryOnError _ _ ih => exact ih

/-- **When such a policy gives up**: at its limit, or at an error that a predicate rejects. -/
theorem shouldRetry_eq_none_iff (h : Built policy limit predicates) {draw : ℕ} {attempt : UInt32}
    (ha : 1 ≤ attempt.toNat) {e : Error} :
    policy.shouldRetry draw attempt e = none ↔
      limit ≤ attempt.toNat ∨ ∃ predicate ∈ predicates, predicate e = false := by
  induction h with
  | noRetry => simp [RetryPolicy.noRetry, ha]
  | fixedRetry _ m | exponentialBackoff _ m =>
      have hle : m ≤ attempt ↔ max m.toNat 1 ≤ attempt.toNat := by
        rw [UInt32.le_iff_toNat_le]
        omega
      rw [← hle]
      simp [RetryPolicy.fixedRetry, RetryPolicy.exponentialBackoff]
  | retryOnError _ predicate ih =>
      simp only [RetryPolicy.retryOnError, List.exists_mem_cons_iff]
      cases hp : predicate e with
      | true => simp [ih]
      | false => simp

end RetryPolicy.Built

/-- The dial ends with this attempt: it succeeds, it is the last one allowed, or a predicate
rejects its error. -/
def Stops (limit : ℕ) (predicates : List (Error → Bool)) (n : ℕ) (result : Except Error Unit) :
    Prop :=
  result = .ok () ∨ n = limit ∨
    ∃ e, result = .error e ∧ ∃ predicate ∈ predicates, predicate e = false

/-- The attempts at which the dial may end. -/
def stoppingAttempts (timeout : Option Duration) (limit : ℕ) (predicates : List (Error → Bool))
    (rounds : ℕ → Round) : Set ℕ :=
  { n | 1 ≤ n ∧ ∃ result took, (rounds n).fut.connResult timeout = some (result, took) ∧
    Stops limit predicates n result }

namespace DialLoop

variable {p : Profile} {backends : List Backend} {idx : ℕ} {b : Backend} {timeout : Option Duration}
  {policy : RetryPolicy} {limit : ℕ} {predicates : List (Error → Bool)} {rounds : ℕ → Round}

/-- Up to the limit, a round is not retried exactly when the dial stops with it. -/
theorem givesUp_built_iff (h : policy.Built limit predicates) {s : DialLoop} {attempt : UInt32}
    (hstage : s.stage = .awaiting attempt) (ha : 1 ≤ attempt.toNat) (hle : attempt.toNat ≤ limit)
    {r : Round} {result : Except Error Unit} {took : Duration}
    (hres : r.fut.connResult timeout = some (result, took)) :
    GivesUp timeout policy s r ↔ Stops limit predicates attempt.toNat result := by
  cases result with
  | ok u => simp [GivesUp, Stops, hres]
  | error e =>
      have hlast : attempt.toNat = limit ↔ limit ≤ attempt.toNat :=
        ⟨fun heq => heq.ge, fun hge => le_antisymm hle hge⟩
      simp [GivesUp, Stops, hstage, hres, h.totalTimeout_eq, h.shouldRetry_eq_none_iff ha, hlast]

/-- The last attempt allowed stops the dial. -/
theorem limit_mem_stoppingAttempts (h : policy.Built limit predicates)
    (hends : ∀ n, (rounds n).fut.Ends timeout) :
    limit ∈ stoppingAttempts timeout limit predicates rounds := by
  obtain ⟨result, took, hres⟩ := (hends limit).connResult
  exact ⟨h.limit_bounds.1, result, took, hres, .inr (.inl rfl)⟩

/-- **The loop with a policy of the crate** makes the calls up to the first attempt that stops, and
returns the result of that attempt. -/
theorem run_built (p : Profile) (h : policy.Built limit predicates)
    (hb : backends[idx]? = some b) (hends : ∀ n, (rounds n).fut.Ends timeout) :
    ∃ k result took clock, IsLeast (stoppingAttempts timeout limit predicates rounds) k ∧
      (rounds k).fut.connResult timeout = some (result, took) ∧
      run (step p backends idx timeout (some policy)) ⟨[b], 0, .awaiting 1⟩
        (firstRounds rounds k) = .ok ⟨List.replicate k b, clock, .returned result⟩ := by
  classical
  obtain ⟨hpos, hlt⟩ := h.limit_bounds
  have hlimit := limit_mem_stoppingAttempts h hends
  have hex : ∃ n, n ∈ stoppingAttempts timeout limit predicates rounds := ⟨limit, hlimit⟩
  have hk : IsLeast (stoppingAttempts timeout limit predicates rounds) (Nat.find hex) :=
    ⟨Nat.find_spec hex, fun n hn => Nat.find_min' hex hn⟩
  generalize Nat.find hex = k at hk
  have hle : k ≤ limit := hk.2 hlimit
  obtain ⟨hk1, result, took, hres, hstop⟩ := hk.1
  obtain ⟨j, rfl⟩ := Nat.exists_eq_add_of_le' hk1
  rcases run_returned_or_waiting p policy hb hends j (by omega) with
    ⟨i, hi, clock, _, hrun⟩ | ⟨clock, attempt, hattempt, hrun⟩
  · -- no attempt before the first one that stops is the last
    obtain ⟨i, s, attempt, rfl, -, hstage, hattempt, hgives⟩ :=
      givesUp_of_returned hb (by omega) hrun rfl
    obtain ⟨result', took', hres'⟩ := (hends (i + 1)).connResult
    rw [givesUp_built_iff h hstage (by omega) (by omega) hres', hattempt] at hgives
    have := hk.2 ⟨Nat.le_add_left 1 i, result', took', hres', hgives⟩
    omega
  · have hgives : GivesUp timeout policy ⟨List.replicate (j + 1) b, clock, .awaiting attempt⟩
        (rounds (j + 1)) := by
      rw [givesUp_built_iff h rfl (by omega) (by omega) hres, hattempt]
      exact hstop
    refine ⟨j + 1, result, took, clock + took.nanos, hk, hres, ?_⟩
    rw [firstRounds_succ]
    exact run_append.mpr ⟨_, hrun, run_cons_eq_ok.mpr ⟨_, step_settled rfl hres hgives, rfl⟩⟩

end DialLoop

section Exact

variable {σ : Type} [BalanceStrategy σ] [LawfulStrategy σ]

/-- **Attempts are bounded and accounted once.** With a policy of the crate, given for the dial or
set on the balancer, a dial calls the backend picked at its start, again and again, up to the
first attempt that succeeds, is the last one allowed or fails with an error that a predicate
rejects. It returns the result of that attempt, has counted one dial and the error if there was
one, and has made one report of the result to the strategy. -/
theorem dialWithOptions_exact {w : World σ} (h : w.Steady) {addr : String}
    (haddr : validateDialAddr addr = .ok ()) (hne : w.lb.backends ≠ []) {policy : RetryPolicy}
    {limit : ℕ} {predicates : List (Error → Bool)} (hbuilt : policy.Built limit predicates)
    {retryPolicy : Option RetryPolicy}
    (hpolicy : retryPolicy = some policy ∨ retryPolicy = none ∧ w.lb.retryPolicy = some policy)
    {dialTimeout timeout : Option Duration}
    (htimeout : dialTimeout = timeout ∧ timeout.isSome ∨
      dialTimeout = none ∧ w.lb.dialTimeout = timeout)
    {rounds : ℕ → Round} (hends : ∀ n, (rounds n).fut.Ends timeout) (p : Profile) (env : Env)
    (draw : ℕ) :
    ∃ idx b strategy strategy' k result took metrics',
      BalanceStrategy.pick env draw w.lb.strategy ⟨addr, w.lb.metrics⟩ = .ok (idx, strategy) ∧
      w.lb.backends[idx]? = some b ∧
      IsLeast (stoppingAttempts timeout limit predicates rounds) k ∧ k ≤ limit ∧
      (rounds k).fut.connResult timeout = some (result, took) ∧
      LoadBalancer.reportResult strategy idx result = .ok strategy' ∧
      w.lb.dialWithOptions p env draw addr dialTimeout retryPolicy (firstRounds rounds k) =
        .ok ⟨result, { w.lb with metrics := metrics', strategy := strategy' }, List.replicate k b⟩ ∧
      metrics' = (w.lb.metrics.modify idx LoadBalancer.countDial).modify idx
        (LoadBalancer.recordResult result) ∧
      ∃ m m', w.lb.metrics[idx]? = some m ∧ metrics'[idx]? = some m' ∧
        m'.totalDials = m.totalDials + 1 ∧
        (result = .ok () → m'.totalErrors = m.totalErrors) ∧
        ∀ e, result = .error e → m'.totalErrors = saturatingInc64 m.totalErrors := by
  have hview : 0 < PoolView.len ⟨addr, w.lb.metrics⟩ := by
    rw [PoolView.len, h.metrics]
    exact List.length_pos_iff.mpr hne
  obtain ⟨idx, strategy, hpick, hlt, hgood⟩ := LawfulStrategy.pick_ok env draw h.strategy hview
  obtain ⟨b, hb, hbegin⟩ := LoadBalancer.beginDial_picked h.metrics haddr hpick hlt
  have hpolicy' : retryPolicy.or w.lb.retryPolicy = some policy := by
    rcases hpolicy with rfl | ⟨rfl, hp⟩
    · rfl
    · exact hp
  have htimeout' : dialTimeout.or w.lb.dialTimeout = timeout := by
    rcases htimeout with ⟨rfl, hsome⟩ | ⟨rfl, ht⟩
    · obtain ⟨t, rfl⟩ := Option.isSome_iff_exists.mp hsome
      rfl
    · exact ht
  obtain ⟨k, result, took, clock, hk, hres, hrun⟩ := DialLoop.run_built p hbuilt hb hends
  obtain ⟨strategy', hstrategy'⟩ := LoadBalancer.exists_reportResult hgood idx result
  have hle : k ≤ limit := hk.2 (DialLoop.limit_mem_stoppingAttempts hbuilt hends)
  set lb₁ : LoadBalancer σ :=
    { w.lb with metrics := w.lb.metrics.modify idx LoadBalancer.countDial, strategy }
  have hb₁ : lb₁.backends[idx]? = some b := hb
  have hloop : lb₁.dialWithRetry p idx dialTimeout retryPolicy (firstRounds rounds k) =
      .ok ⟨List.replicate k b, clock, .returned result⟩ := by
    rw [LoadBalancer.dialWithRetry_eq hb₁]
    rw [← hpolicy', ← htimeout'] at hrun
    exact hrun
  refine ⟨idx, b, strategy, strategy', k, result, took, _, hpick, hb, hk, hle, hres, hstrategy',
    LoadBalancer.dialWithOptions_eq_ok hbegin hloop rfl (LoadBalancer.handleResult_eq hstrategy'),
    rfl, w.lb.metrics[idx], LoadBalancer.recordResult result
      (LoadBalancer.countDial w.lb.metrics[idx]), List.getElem?_eq_getElem hlt, ?_, ?_, ?_, ?_⟩
  · rw [List.getElem?_modify_eq, List.getElem?_modify_eq, List.getElem?_eq_getElem hlt]
    rfl
  · cases result <;> rfl
  · rintro rfl
    rfl
  · rintro e rfl
    rfl

/-- A call that is refused at once. -/
def Round.refused : Round := ⟨⟨some (.fromSecs 0), .error (.io "refused")⟩, 0⟩

/-- Refused twice, then connected. -/
def thirdTime (n : ℕ) : Round :=
  if n < 3 then .refused else ⟨⟨some (.fromSecs 0), .ok ()⟩, 0⟩

/-- I/O errors are worth another attempt. -/
def Error.isIo : Error → Bool
  | .io _ => true
  | _ => false

/-- The third attempt of at most five, for I/O errors only, connects. -/
theorem dialWithOptions_thirdTime :
    ∃ out, (World.ofSize 2 (Builtin.roundRobin ⟨0⟩)).lb.dialWithOptions .dev Env.plain 0 "a:1" none
        (some ((RetryPolicy.fixedRetry (.fromMillis 10) (some 5)).retryOnError Error.isIo))
        (firstRounds thirdTime 3) = .ok out ∧
      out.result = .ok () ∧ out.dialed.length = 3 := by
  have hsteady : (World.ofSize 2 (Builtin.roundRobin ⟨0⟩)).Steady :=
    World.initial_steady (World.initial_ofSize Nat.two_pos _) trivial
  have haddr : validateDialAddr "a:1" = .ok () := rfl
  have hbuilt := (RetryPolicy.Built.fixedRetry (.fromMillis 10) 5).retryOnError Error.isIo
  have hends : ∀ n, (thirdTime n).fut.Ends none := by
    intro n
    refine .inr ?_
    rw [thirdTime]
    split
    · rfl
    · rfl
  have hleast : IsLeast (stoppingAttempts none 5 [Error.isIo] thirdTime) 3 := by
    refine ⟨⟨by decide, .ok (), .fromSecs 0, rfl, .inl rfl⟩, ?_⟩
    rintro n ⟨hn, result, took, hres, hstop⟩
    by_contra hlt
    obtain rfl | rfl : n = 1 ∨ n = 2 := by omega
    · cases hres
      simp [Stops, Error.isIo] at hstop
    · cases hres
      simp [Stops, Error.isIo] at hstop
  obtain ⟨idx, b, strategy, strategy', k, result, took, metrics', -, -, hk, -, hres, -, hdial, -⟩ :=
    dialWithOptions_exact hsteady haddr (by decide) hbuilt (.inl rfl) (.inr ⟨rfl, rfl⟩) hends .dev
      Env.plain 0
  obtain rfl : k = 3 := hk.unique hleast
  cases hres
  exact ⟨_, hdial, rfl, List.length_replicate⟩

end Exact

/-! ### The attempt limit of any policy -/

namespace LoadBalancer

variable {σ : Type} {p : Profile} {lb : LoadBalancer σ} {idx : ℕ} {b : Backend}
  {dialTimeout : Option Duration} {retryPolicy : Option RetryPolicy} {policy : RetryPolicy}

/-- **The attempt limit.** With any policy whose `max_attempts` is `m`, a dial returns after at most
`max m 1` calls if and only if its attempt number `max m 1`, should it get there, is not
retried: it succeeds, `should_retry` gives up, or the budget is used up. -/
theorem attempts_bounded_iff (hb : lb.backends[idx]? = some b)
    (hpolicy : retryPolicy.or lb.retryPolicy = some policy) {rounds : ℕ → Round}
    (hends : ∀ n, (rounds n).fut.Ends (dialTimeout.or lb.dialTimeout)) :
    ∀ m : UInt32, policy.maxAttempts = some m →
      ((∃ j ≤ max m.toNat 1, ∃ clock result,
        lb.dialWithRetry p idx dialTimeout retryPolicy (firstRounds rounds j) =
          .ok ⟨List.replicate j b, clock, .returned result⟩) ↔
        ∀ s, lb.dialWithRetry p idx dialTimeout retryPolicy
            (firstRounds rounds (max m.toNat 1 - 1)) = .ok s →
          DialLoop.GivesUp (dialTimeout.or lb.dialTimeout) policy s (rounds (max m.toNat 1))) := by
  -- the loop never reads `max_attempts`, so neither does the proof
  rintro m -
  have hlt := m.toNat_lt
  obtain ⟨n, hn⟩ : ∃ n, max m.toNat 1 = n + 1 := ⟨max m.toNat 1 - 1, by omega⟩
  rw [hn, Nat.add_sub_cancel]
  simp only [dialWithRetry_eq hb, hpolicy]
  constructor
  · rintro ⟨j, hj, clock, result, hrun⟩ s hs
    rcases Nat.lt_or_eq_of_le hj with hlt | rfl
    · -- it has returned before: there is no state in which it waits for attempt `n + 1`
      have hsplit := (firstRounds rounds n).take_append_drop j
      rw [take_firstRounds rounds (by omega)] at hsplit
      rw [← hsplit] at hs
      obtain ⟨s₁, hs₁, hrest⟩ := run_append.mp hs
      cases hrun.symm.trans hs₁
      rw [DialLoop.run_of_returned rfl hrest] at hrest
      cases hrest
      intro attempt e took hstage
      cases hstage
    · obtain ⟨n, s₁, -, hn, hs₁, -, -, hgives⟩ :=
        DialLoop.givesUp_of_returned hb (by omega) hrun rfl
      cases hn
      cases hs.symm.trans hs₁
      exact hgives
  · intro hgives
    rcases DialLoop.run_returned_or_waiting p policy hb hends n (by omega) with
      ⟨i, hi, hreturned⟩ | ⟨clock, attempt, -, hrun⟩
    · exact ⟨i, by omega, hreturned⟩
    · obtain ⟨result, took, hres⟩ := (hends (n + 1)).connResult
      refine ⟨n + 1, le_rfl, clock + took.nanos, result, ?_⟩
      rw [firstRounds_succ]
      exact run_append.mpr ⟨_, hrun, run_cons_eq_ok.mpr
        ⟨_, DialLoop.step_settled rfl hres (hgives _ hrun), rfl⟩⟩

/-- The policy stops at its own limit of two. -/
theorem attempts_bounded_fixedRetry :
    ∃ j ≤ 2, ∃ clock result,
      (World.ofSize 1 (Builtin.roundRobin ⟨0⟩)).lb.dialWithRetry .dev 0 none
          (some (.fixedRetry (.fromMillis 10) (some 2))) (firstRounds (fun _ => .refused) j) =
        .ok ⟨List.replicate j ⟨0, 0⟩, clock, .returned result⟩ := by
  refine (attempts_bounded_iff rfl rfl (fun _ => .inr rfl) 2 rfl).mpr fun s hs => ?_
  have hwaits : (World.ofSize 1 (Builtin.roundRobin ⟨0⟩)).lb.dialWithRetry .dev 0 none
      (some (.fixedRetry (.fromMillis 10) (some 2))) (firstRounds (fun _ => .refused) 1) =
        .ok ⟨[⟨0, 0⟩, ⟨0, 0⟩], 10 * 10 ^ 6, .awaiting 2⟩ := rfl
  cases hs.symm.trans hwaits
  intro attempt e took hstage _
  cases hstage
  exact .inl rfl

/-- A policy with a limit of one attempt that it leaves to the caller to keep. -/
def eagerPolicy : RetryPolicy where
  shouldRetry _ _ _ := some (.fromMillis 10)
  maxAttempts := some 1

/-- **A policy that relies on its `max_attempts` is retried for ever**: against a backend that
refuses every call, no number of calls is the last. -/
theorem limit_ignored :
    eagerPolicy.maxAttempts = some 1 ∧
    ∀ n, ∃ clock attempt,
      (World.ofSize 1 (Builtin.roundRobin ⟨0⟩)).lb.dialWithRetry .release 0 none (some eagerPolicy)
          (firstRounds (fun _ => .refused) n) =
        .ok ⟨List.replicate (n + 1) ⟨0, 0⟩, clock, .awaiting attempt⟩ := by
  refine ⟨rfl, fun n => ?_⟩
  have hb : (World.ofSize 1 (Builtin.roundRobin ⟨0⟩)).lb.backends[0]? = some ⟨0, 0⟩ := rfl
  simp only [dialWithRetry_eq hb]
  induction n with
  | zero => exact ⟨0, 1, rfl⟩
  | succ n ih =>
      obtain ⟨clock, attempt, hrun⟩ := ih
      obtain ⟨m, hinc⟩ : ∃ m, Profile.release.inc attempt = .ok m := by
        by_cases hmax : attempt = 0xFFFFFFFF
        · exact ⟨0, inc_eq_ok.mpr (.inr ⟨hmax, rfl, rfl⟩)⟩
        · exact ⟨attempt + 1, inc_eq_ok.mpr (.inl ⟨hmax, rfl⟩)⟩
      refine ⟨clock + 0 + 10 * 10 ^ 6, m, ?_⟩
      rw [firstRounds_succ, List.replicate_succ']
      refine run_append.mpr ⟨_, hrun, run_cons_eq_ok.mpr ⟨_, DialLoop.step_eq_ok.mpr ⟨attempt,
        .error (.io "refused"), .fromSecs 0, rfl, rfl, .inr ⟨.fromMillis 10, rfl, ?_⟩⟩, rfl⟩⟩
      exact DialLoop.enter_eq_ok.mpr ⟨m, ⟨0, 0⟩, hinc, hb, rfl⟩

/-! ### The budget of any policy -/

/-- A delay that the policy grants within its budget `T` also ends within it. -/
def DelayFits (timeout : Option Duration) (policy : RetryPolicy) (T : Duration) (s : DialLoop)
    (r : Round) : Prop :=
  ∀ attempt e took delay, s.stage = .awaiting attempt →
    r.fut.connResult timeout = some (.error e, took) → s.clock + took.nanos < T.nanos →
    policy.shouldRetry r.draw attempt e = some delay →
    s.clock + took.nanos + delay.nanos < T.nanos

/-- **The budget.** With any policy whose `total_timeout` is `T`, in every run of the loop the calls
after the first one start before `T` has elapsed if and only if every delay that is granted
within the budget also ends within it. -/
theorem budget_kept_iff (hb : lb.backends[idx]? = some b)
    (hpolicy : retryPolicy.or lb.retryPolicy = some policy) {T : Duration}
    (hT : policy.totalTimeout = some T) {rounds : List Round} {s' : DialLoop}
    (hrun : lb.dialWithRetry p idx dialTimeout retryPolicy rounds = .ok s') :
    (∀ j s attempt, 1 ≤ j → j ≤ rounds.length →
        lb.dialWithRetry p idx dialTimeout retryPolicy (rounds.take j) = .ok s →
        s.stage = .awaiting attempt → s.clock < T.nanos) ↔
      ∀ j r s, rounds[j]? = some r →
        lb.dialWithRetry p idx dialTimeout retryPolicy (rounds.take j) = .ok s →
        DelayFits (dialTimeout.or lb.dialTimeout) policy T s r := by
  simp only [dialWithRetry_eq hb, hpolicy] at hrun ⊢
  constructor
  · intro hkept j r s hr hs attempt e took delay hstage hres hbudget hretry
    obtain ⟨s₁, hs₁⟩ := exists_run_take hrun (j + 1)
    obtain ⟨s₀, hs₀, hstep⟩ := (run_take_succ hr).mp hs₁
    cases hs.symm.trans hs₀
    have hdelay : delayAfter (some policy) (.ofNanos (s.clock + took.nanos)) r.draw attempt
        (.error e) = some delay := by
      refine retryDelay_eq_some_iff.mpr ⟨fun T' hT' => ?_, hretry⟩
      cases hT.symm.trans hT'
      exact hbudget
    obtain ⟨n, hn, hclock⟩ := DialLoop.step_granted hstage hres hdelay hstep
    rw [← hclock]
    exact hkept (j + 1) s₁ n (by omega) (List.getElem?_eq_some_iff.mp hr).1 hs₁ hn
  · intro hfits j s attempt hj hlen hs hstage
    obtain ⟨i, rfl⟩ := Nat.exists_eq_add_of_le' hj
    have hr : rounds[i]? = some rounds[i] := List.getElem?_eq_getElem (by omega)
    obtain ⟨s₀, hs₀, hstep⟩ := (run_take_succ hr).mp hs
    obtain ⟨n, result, took, delay, hstage₀, hres, hdelay, hclock⟩ :=
      DialLoop.step_awaiting hstep hstage
    cases result with
    | ok u => cases hdelay
    | error e =>
        obtain ⟨hbudget, hretry⟩ := retryDelay_eq_some_iff.mp hdelay
        rw [hclock]
        exact hfits i _ s₀ hr hs₀ n e took delay hstage₀ hres (hbudget T hT) hretry

/-- One retry after the given delay, within 100 ms. -/
def within100ms (delay : Duration) : RetryPolicy where
  shouldRetry _ attempt _ := if attempt = 1 then some delay else none
  totalTimeout := some (.fromMillis 100)

/-- The second call starts within 100 ms, and is the last. -/
theorem budget_kept_tenMillis :
    ∃ s s', (World.ofSize 1 (Builtin.roundRobin ⟨0⟩)).lb.dialWithRetry .dev 0 none
        (some (within100ms (.fromMillis 10))) [.refused] = .ok s ∧
      (World.ofSize 1 (Builtin.roundRobin ⟨0⟩)).lb.dialWithRetry .dev 0 none
        (some (within100ms (.fromMillis 10))) [.refused, .refused] = .ok s' ∧
      s.stage = .awaiting 2 ∧ s.clock < (Duration.fromMillis 100).nanos ∧ s'.dialed.length = 2 := by
  have hwaits : (World.ofSize 1 (Builtin.roundRobin ⟨0⟩)).lb.dialWithRetry .dev 0 none
      (some (within100ms (.fromMillis 10))) [.refused] =
        .ok ⟨[⟨0, 0⟩, ⟨0, 0⟩], 10 * 10 ^ 6, .awaiting 2⟩ := rfl
  have hrun : (World.ofSize 1 (Builtin.roundRobin ⟨0⟩)).lb.dialWithRetry .dev 0 none
      (some (within100ms (.fromMillis 10))) [.refused, .refused] =
        .ok ⟨[⟨0, 0⟩, ⟨0, 0⟩], 10 * 10 ^ 6, .returned (.error (.io "refused"))⟩ := rfl
  refine ⟨_, _, hwaits, hrun, rfl, ?_, rfl⟩
  refine (budget_kept_iff rfl rfl rfl hrun).mpr (fun j r s hr hs => ?_) 1 _ 2 le_rfl (by decide)
    hwaits rfl
  intro attempt e took delay hstage hres hbudget hretry
  match j with
  | 0 =>
      cases hr
      cases hs
      cases hstage
      cases hres
      cases hretry
      decide
  | 1 =>
      cases hr
      cases hs
      cases hstage
      cases hretry
  | j + 2 => cases hr

/-- **The budget is checked before the sleep**: within 100 ms a delay of 200 ms is granted, and the
second call starts after it. -/
theorem second_call_late :
    ∃ s, (World.ofSize 1 (Builtin.roundRobin ⟨0⟩)).lb.dialWithRetry .dev 0 none
        (some (within100ms (.fromMillis 200))) [.refused] = .ok s ∧
      (within100ms (.fromMillis 200)).totalTimeout = some (.fromMillis 100) ∧
      s.stage = .awaiting 2 ∧ s.dialed.length = 2 ∧ ¬ s.clock < (Duration.fromMillis 100).nanos :=
  ⟨⟨[⟨0, 0⟩, ⟨0, 0⟩], 200 * 10 ^ 6, .awaiting 2⟩, rfl, rfl, rfl, rfl, by decide⟩

end LoadBalancer

end RotaLb
