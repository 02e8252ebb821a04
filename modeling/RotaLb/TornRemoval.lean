import RotaLb.FixedPool
import RotaLb.Windows

/-!
# A Removal Given Up Half Way

`remove_backend` takes the backend out of `backends` and `ids` before it awaits the metrics lock.
A caller that drops the future there (a timeout, a `select!`) leaves a balancer with one row of
metrics more than it has backends. Nothing shortens the metrics again: additions and further
removals change both vectors alike, and only `replace_backends` builds them anew.

A strategy sees the metrics only, so it may pick the last row, and the dial indexes the backends
out of range. The panic ends that dial and not the balancer, which has counted the row and moved
its strategy on: the runs here are those of `World.proceed`. `RoundRobin` comes to the last row
once in every round.

## Main results

* `torn_until_replaced`: **the vectors have one length again exactly when the pool was replaced**.
* `torn_round_robin`: **one dial of each round-robin round panics**, and the others are served.
-/

namespace RotaLb

open Rust StepSystem

variable {σ : Type}

/-- The event replaces the pool. -/
def Event.replaces : Event σ → Bool
  | .replaceBackends ptrs _ => !ptrs.isEmpty
  | _ => false

/-- The event is one of a dial or of the drop of a connection. -/
def Event.serves : Event σ → Bool
  | .start .. => true
  | e => e.onTask

namespace World

/-- The world after a `remove_backend` call was dropped at its metrics lock, with the balancer it
has left behind. -/
def leftBehind (w : World σ) (lb : LoadBalancer σ) : World σ := { w with lb, epoch := w.epoch + 1 }

/-- There are `k` rows of metrics more than backends. -/
def Longer (k : ℕ) (w : World σ) : Prop := w.lb.metrics.length = w.lb.backends.length + k

/-- The balancer left behind has a row too many. -/
theorem Sync.longer_leftBehind {w : World σ} (h : Sync w) {index : ℕ} {lb : LoadBalancer σ}
    (hfirst : w.lb.removeFirst index = .ok (some lb)) :
    Longer 1 (w.leftBehind lb) ∧ lb.backends.length + 1 = w.lb.backends.length ∧
      lb.strategy = w.lb.strategy := by
  obtain ⟨hb, -, hm⟩ := h.length
  have hof : w.firstHalf (.removeBackend index) = .ok (some (lb, .remove index)) := by
    simp [firstHalf, removalIndex, hfirst, bind, Except.bind, pure, Except.pure]
  obtain ⟨⟨-, hlt⟩, rfl⟩ := firstHalf_eq_some hof
  have herase := List.length_eraseIdx_of_lt hlt
  refine ⟨?_, ?_, rfl⟩
  · simp only [Longer, leftBehind, Closing.halfway, herase]
    omega
  · simp only [Closing.halfway, herase]
    omega

/-! ### Until the pool is replaced -/

variable [BalanceStrategy σ] {env : Env}

variable (env) in
/-- The event panics. -/
def panics (w : World σ) (e : Event σ) : Bool :=
  match w.step env e with
  | .error (.panic _) => true
  | _ => false

variable (env) in
/-- Every way in which the balancer outlives an event. -/
inductive Outlived (w : World σ) : Event σ → World σ → Prop
  | ran {e : Event σ} {w' : World σ} (hs : w.step env e = .ok w') : Outlived w e w'
  | lost {addr : String} {timeout : Option Duration} {policy : Option RetryPolicy} {draw idx : ℕ}
      {strategy : σ} (hpanics : w.panics env (.start addr timeout policy draw) = true) :
      Outlived w (.start addr timeout policy draw) (w.abandoned idx strategy)
  | unwound {k : ℕ} {d : Dial} : Outlived w (.woke k) (w.cancel k d)

/-- An event that the balancer outlives has run, or it was a dial that is lost now. -/
theorem proceed_outlived {w w' : World σ} {e : Event σ} (h : w.proceed env e = .ok w') :
    Outlived env w e w' := by
  unfold proceed at h
  split at h
  · rename_i hpanic
    split at h
    · unfold afterPanic at h
      split at h
      · cases h
        exact .lost (by rw [panics, hpanic])
      · cases h
    · obtain ⟨d, -, hw⟩ := onItem_eq_ok h
      cases hw
      exact .unwound
    · cases h
  · exact .ran h

/-- A replacement makes the vectors equally long. -/
theorem longer_of_replaces {w w' : World σ} {e : Event σ} (he : e.replaces = true)
    (hs : w.step env e = .ok w') : Longer 0 w' := by
  cases e with
  | replaceBackends ptrs strategy =>
      obtain ⟨-, hw⟩ := exclusive_eq_ok hs
      cases ptrs with
      | nil => cases he
      | cons ptr ptrs =>
          cases hw
          exact List.length_replicate
  | _ => cases he

/-- Every other event keeps the difference. -/
theorem step_longer {w w' : World σ} {e : Event σ} {k : ℕ} (h : Longer k w)
    (he : e.replaces = false) (hs : w.step env e = .ok w') : Longer k w' := by
  unfold Longer at h ⊢
  cases step_effect hs with
  | idle | moved | connected | returned | cancelled | stale | checked | contended | strategySet =>
      exact h
  | routed | succeeded | errored | dropped | written | drained | undrained =>
      exact (List.length_modify _ _ _).trans h
  | entered =>
      simp only [added, LoadBalancer.pushBackend, List.length_append, List.length_singleton]
      omega
  | @left e index b _ _ hb =>
      have hlt := (List.getElem?_eq_some_iff.mp hb).1
      simp only [afterLeave]
      rw [List.length_eraseIdx_of_lt hlt, List.length_eraseIdx_of_lt (by omega)]
      omega
  | @replaced ptrs strategy _ hne => simp [Event.replaces, hne] at he

/-- What an event does to the difference, also one that panics. -/
theorem proceed_longer {w w' : World σ} {e : Event σ} {k : ℕ} (h : Longer k w)
    (hs : w.proceed env e = .ok w') : Longer (if e.replaces then 0 else k) w' := by
  cases proceed_outlived hs with
  | ran hs =>
      cases he : e.replaces with
      | true => exact longer_of_replaces he hs
      | false => exact step_longer h he hs
  | lost => exact (List.length_modify _ _ _).trans h
  | unwound => exact h

/-- **The vectors have one length again exactly when the pool was replaced.** For every reachable
balancer and every `remove_backend` call dropped at its metrics lock, at the end of every run
from there, dials that panic included, the metrics have one row too many, unless the run replaced
the pool. -/
theorem torn_until_replaced {w w' : World σ} (h : Reaches (step env) Initial w) {index : ℕ}
    {lb : LoadBalancer σ} (hfirst : w.lb.removeFirst index = .ok (some lb)) {es : List (Event σ)}
    (hrun : run (proceed env) (w.leftBehind lb) es = .ok w') :
    (w'.lb.metrics.length = w'.lb.backends.length ↔ ∃ e ∈ es, e.replaces = true) ∧
      w'.lb.metrics.length ≤ w'.lb.backends.length + 1 := by
  have hlonger : Longer (if es.any Event.replaces then 0 else 1) w' := by
    refine run_history (I := fun es w => Longer (if es.any Event.replaces then 0 else 1) w)
      ((reaches_sync h).longer_leftBehind hfirst).1 ?_ hrun
    intro es w e w' hw hs
    have hnext := proceed_longer hw hs
    rw [List.any_append]
    cases he : e.replaces with
    | true => simpa [he] using hnext
    | false => simpa [he] using hnext
  rw [← List.any_eq_true]
  unfold Longer at hlonger
  split at hlonger
  · rename_i hany
    exact ⟨iff_of_true hlonger hany, by omega⟩
  · rename_i hany
    exact ⟨iff_of_false (by omega) hany, by omega⟩

/-- Three backends, and the balancer that a removal of the first one has left behind. -/
def threeTorn : LoadBalancer Builtin :=
  (Closing.remove 0).halfway (ofSize 3 (Builtin.roundRobin ⟨1⟩)).lb

theorem removeFirst_threeTorn :
    (ofSize 3 (Builtin.roundRobin ⟨1⟩)).lb.removeFirst 0 = .ok (some threeTorn) := rfl

/-- A dial that connects, one that panics, and one that connects after it. -/
def tornDials : List (Event Builtin) :=
  Event.connecting 0 ++ [.drop 0, .start "a:1" none none 0] ++ Event.connecting 0

theorem torn_until_replaced_threeTorn :
    ∃ w', run (proceed Env.plain) ((ofSize 3 (.roundRobin ⟨1⟩)).leftBehind threeTorn)
        (tornDials ++ [.addBackend 7, .removeBackend 0, .removeBackend 0]) = .ok w' ∧
      w'.lb.backends.length = 1 ∧ w'.lb.metrics.length ≠ w'.lb.backends.length := by
  have hends : ends (proceed Env.plain) (fun w => decide (w.lb.backends.length = 1))
      ((ofSize 3 (.roundRobin ⟨1⟩)).leftBehind threeTorn)
      (tornDials ++ [.addBackend 7, .removeBackend 0, .removeBackend 0]) = true := by decide
  obtain ⟨w', hrun, hw⟩ := exists_run_of_ends hends
  have htorn := torn_until_replaced
    ⟨_, [], initial_ofSize (by decide : 0 < 3) _, rfl⟩ removeFirst_threeTorn hrun
  refine ⟨w', hrun, of_decide_eq_true hw, fun hlen => ?_⟩
  simpa [Event.replaces, tornDials, Event.connecting] using htorn.1.mp hlen

/-! ### Round-robin over a row too many -/

omit [BalanceStrategy σ] in
/-- A dial that gets as far as the strategy has a valid address and a pool. -/
theorem of_reachesStrategy {w : World σ} {e : Event σ} (h : w.reachesStrategy e = true) :
    ∃ addr timeout policy draw, e = .start addr timeout policy draw ∧
      validateDialAddr addr = .ok () ∧ w.lb.backends.isEmpty = false := by
  cases e with
  | start addr timeout policy draw =>
      obtain ⟨haddr, hne⟩ := Bool.and_eq_true_iff.mp h
      refine ⟨addr, timeout, policy, draw, rfl, ?_, by simpa using hne⟩
      cases hv : validateDialAddr addr with
      | ok u => rfl
      | error e => simp [hv, Except.isOk, Except.toBool] at haddr
  | _ => cases h

/-- Where a dial goes that gets as far as the strategy: the backend at the picked row, if there
is one. -/
theorem step_start_reached {w : World σ} {addr : String} {draw idx : ℕ} {strategy : σ}
    (haddr : validateDialAddr addr = .ok ()) (hne : w.lb.backends.isEmpty = false)
    (hpick : BalanceStrategy.pick env draw w.lb.strategy ⟨addr, w.lb.metrics⟩ =
      .ok (idx, strategy)) (hlt : idx < w.lb.metrics.length)
    (timeout : Option Duration) (policy : Option RetryPolicy) :
    (w.lb.backends.length ≤ idx ∧ w.step env (.start addr timeout policy draw) =
        .error (.panic (.indexOutOfBounds idx w.lb.backends.length))) ∨
      (idx < w.lb.backends.length ∧ ∃ d, w.step env (.start addr timeout policy draw) =
        .ok (w.afterRoute idx strategy d)) := by
  rcases Nat.lt_or_ge idx w.lb.backends.length with hb | hb
  · exact .inr ⟨hb, _, start_of_pick timeout policy haddr hpick hlt (List.getElem?_eq_getElem hb)⟩
  · refine .inl ⟨hb, ?_⟩
    simp [step, start, LoadBalancer.beginDial, haddr, hne, LoadBalancer.pickBackend, hpick,
      Vec.modify, hlt, Vec.get, List.getElem?_eq_none hb, bind, Except.bind, pure, Except.pure]

/-- A torn pool of `n` backends after `m` dials, the cursor having been at row `c`. -/
structure Rounding (n c m : ℕ) (w : World Builtin) : Prop where
  backends : w.lb.backends.length = n
  metrics : w.lb.metrics.length = n + 1
  cursor : ∃ s, w.lb.strategy = .roundRobin s ∧ s.next % (n + 1) = (c + m) % (n + 1)

variable (env) in
/-- The next dial panics exactly if the cursor is at the last row, and moves it on in any case. -/
theorem Rounding.start {n c m : ℕ} {w : World Builtin} {e : Event Builtin} (h : Rounding n c m w)
    (he : w.reachesStrategy e = true) :
    (w.panics env e = true ↔ (c + m) % (n + 1) = n) ∧
      (w.step env e = .error (.panic (.indexOutOfBounds n n)) ↔ (c + m) % (n + 1) = n) ∧
      ∃ w', w.proceed env e = .ok w' ∧ Rounding n c (m + 1) w' := by
  obtain ⟨addr, timeout, policy, draw, rfl, haddr, hne⟩ := of_reachesStrategy he
  obtain ⟨hb, hm, s, hs, hcursor⟩ := h
  have hlen : PoolView.len ⟨addr, w.lb.metrics⟩ = n + 1 := hm
  have hpick : BalanceStrategy.pick env draw w.lb.strategy ⟨addr, w.lb.metrics⟩ =
      .ok ((c + m) % (n + 1), Builtin.roundRobin ⟨(c + m) % (n + 1) + 1⟩) := by
    rw [hs]
    change Builtin.pick .release env draw (.roundRobin s) _ = _
    rw [Builtin.pick, s.pick_ok (hlen ▸ Nat.succ_pos n), hlen, hcursor]
    rfl
  have hlt : (c + m) % (n + 1) < n + 1 := Nat.mod_lt _ (Nat.succ_pos n)
  -- routed or lost, the dial has counted its row and moved the cursor on
  have hnext : ∀ w' : World Builtin, w'.lb = (w.abandoned ((c + m) % (n + 1))
      (.roundRobin ⟨(c + m) % (n + 1) + 1⟩)).lb → Rounding n c (m + 1) w' := by
    intro w' hlb
    refine ⟨hlb ▸ hb, ?_, ⟨(c + m) % (n + 1) + 1⟩, hlb ▸ rfl, Nat.mod_add_mod (c + m) (n + 1) 1⟩
    rw [hlb]
    exact (List.length_modify _ _ _).trans hm
  rcases step_start_reached haddr hne hpick (hm ▸ hlt) timeout policy with
    ⟨hge, hstep⟩ | ⟨hlt', d, hstep⟩
  · have hlast : (c + m) % (n + 1) = n := by omega
    refine ⟨iff_of_true (by rw [panics, hstep]) hlast, iff_of_true ?_ hlast, _, ?_, hnext _ rfl⟩
    · rw [hstep, hb, hlast]
    · simp only [proceed, hstep, afterPanic, hpick]
  · have hother : (c + m) % (n + 1) ≠ n := by omega
    refine ⟨iff_of_false (by simp [panics, hstep]) hother, iff_of_false (by simp [hstep]) hother,
      w.afterRoute _ _ d, ?_, hnext _ rfl⟩
    simp only [proceed, hstep]

/-- Whatever else a dial or a drop does, the cursor stays. -/
theorem Rounding.step {n c m : ℕ} {w w' : World Builtin} {e : Event Builtin}
    (h : Rounding n c m w) (hserves : e.serves = true) (he : w.reachesStrategy e = false)
    (hs : w.step env e = .ok w') : Rounding n c m w' := by
  have hkeep : ∀ ms : List TunnelMetrics, ms.length = w.lb.metrics.length →
      ∀ v : World Builtin, v.lb = { w.lb with metrics := ms } → Rounding n c m v := by
    rintro ms hlen v hv
    obtain ⟨hb, hm, hcursor⟩ := h
    exact ⟨hv ▸ hb, by rw [hv]; exact hlen.trans hm, hv ▸ hcursor⟩
  cases step_effect hs with
  | idle => exact h
  | moved | cancelled | stale | checked | contended => exact hkeep _ rfl _ rfl
  | succeeded | errored | dropped | written => exact hkeep _ (List.length_modify _ _ _) _ rfl
  | @connected k d strategy _ _ hreport | @returned k d _ strategy _ _ hreport =>
      obtain ⟨hb, hm, s, hstrategy, hcursor⟩ := h
      rw [hstrategy] at hreport
      exact ⟨hb, hm, s, (Except.ok.inj hreport).symm, hcursor⟩
  | routed haddr _ hb =>
      have hne : w.lb.backends.isEmpty = false := by
        rw [List.isEmpty_eq_false_iff]
        rintro hnil
        simp [hnil] at hb
      simp [reachesStrategy, haddr, hne, Except.isOk, Except.toBool] at he
  | entered _ hadd => rcases hadd with ⟨rfl, -⟩ | ⟨_, rfl, -⟩ <;> cases hserves
  | left _ hrem =>
      cases e with
      | removeBackend | removeBackendById | removeBackendByPtr => cases hserves
      | _ => cases hrem
  | replaced | drained | undrained | strategySet => cases hserves

/-- A dial that does not get as far as the strategy is refused. -/
theorem step_of_not_reachesStrategy {w : World σ} {addr : String} {timeout : Option Duration}
    {policy : Option RetryPolicy} {draw : ℕ}
    (h : w.reachesStrategy (.start addr timeout policy draw) = false) :
    w.step env (.start addr timeout policy draw) = .ok w := by
  rw [step, start, LoadBalancer.beginDial]
  cases hv : validateDialAddr addr with
  | error err => rfl
  | ok u =>
      have hempty : w.lb.backends.isEmpty = true := by
        simpa [reachesStrategy, hv, Except.isOk, Except.toBool] using h
      simp only [hempty, if_true]

/-- The cursor stays as well if a retrying dial is lost. -/
theorem Rounding.other {n c m : ℕ} {w w' : World Builtin} {e : Event Builtin}
    (h : Rounding n c m w) (hserves : e.serves = true) (he : w.reachesStrategy e = false)
    (hs : w.proceed env e = .ok w') : Rounding n c m w' := by
  cases proceed_outlived hs with
  | ran hs => exact h.step hserves he hs
  | lost hpanics =>
      rw [panics, step_of_not_reachesStrategy he] at hpanics
      cases hpanics
  | unwound => exact ⟨h.backends, h.metrics, h.cursor⟩

/-- The dials that panic after `m` dials, from a cursor at row `c`. -/
theorem rounds_succ (n c m : ℕ) {p : Bool} (hp : p = true ↔ (c + m) % (n + 1) = n) :
    (c + (m + 1)) / (n + 1) = (c + m) / (n + 1) + if p then 1 else 0 := by
  have hdvd : n + 1 ∣ c + m + 1 ↔ p = true := by
    rw [hp, Nat.dvd_iff_mod_eq_zero, Nat.succ_mod_succ_eq_zero_iff]
  rw [← Nat.add_assoc, Nat.succ_div, if_congr hdvd rfl rfl]

/-- **One dial of each round-robin round panics.** For every reachable balancer with round-robin
and every `remove_backend` call dropped at its metrics lock, with `n` backends left and the cursor
at row `c = next % (n + 1)`: in every run of dials and drops from there, of the first `m` dials
that get as far as the strategy exactly `(c + m) / (n + 1)` panic, and the next one indexes the
backends out of range exactly if `(c + m) % (n + 1) = n`. The balancer outlives it either way. -/
theorem torn_round_robin {w w' : World Builtin} (h : Reaches (step env) Initial w) {s : RoundRobin}
    (hs : w.lb.strategy = .roundRobin s) {index : ℕ} {lb : LoadBalancer Builtin}
    (hfirst : w.lb.removeFirst index = .ok (some lb)) {es : List (Event Builtin)}
    (hserves : ∀ e ∈ es, e.serves = true)
    (hrun : run (proceed env) (w.leftBehind lb) es = .ok w') {n c m : ℕ}
    (hn : n = lb.backends.length) (hc : c = s.next % (n + 1))
    (hm : m = count (proceed env) reachesStrategy (w.leftBehind lb) es) :
    count (proceed env) (fun w e => w.reachesStrategy e && w.panics env e) (w.leftBehind lb) es =
        (c + m) / (n + 1) ∧
      ∀ e, w'.reachesStrategy e = true →
        (w'.step env e = .error (.panic (.indexOutOfBounds n n)) ↔ (c + m) % (n + 1) = n) ∧
          ∃ w'', w'.proceed env e = .ok w'' := by
  obtain ⟨hlonger, -, hstrategy⟩ := (reaches_sync h).longer_leftBehind hfirst
  have hstart : Rounding n c 0 (w.leftBehind lb) := by
    refine ⟨hn.symm, hn ▸ hlonger, s, hstrategy.trans hs, ?_⟩
    rw [hc]
    simp
  have hnone : 0 = (c + 0) / (n + 1) := by
    rw [Nat.add_zero, Nat.div_eq_of_lt (hc ▸ Nat.mod_lt _ (Nat.succ_pos n))]
  have hround := run_counts (n := 0) (q := reachesStrategy)
    (r := fun w e => w.reachesStrategy e && w.panics env e) (D := fun _ e => e.serves = true)
    (R := fun m k v => Rounding n c m v ∧ k = (c + m) / (n + 1)) ?_
    ⟨hstart, hnone⟩ (along_of_forall hserves) hrun
  · rw [Nat.zero_add, Nat.zero_add, ← hm] at hround
    refine ⟨hround.2, fun e he => ?_⟩
    obtain ⟨-, hpanic, w'', hstep, -⟩ := hround.1.start env he
    exact ⟨hpanic, w'', hstep⟩
  · rintro m k v e v' ⟨hv, rfl⟩ hserves hstep
    cases he : v.reachesStrategy e with
    | false => exact ⟨hv.other hserves he hstep, rfl⟩
    | true =>
        obtain ⟨hpanics, -, v'', hstep', hv'⟩ := hv.start env he
        cases hstep'.symm.trans hstep
        exact ⟨hv', (rounds_succ n c m hpanics).symm⟩

/-- With the cursor at the second of three rows, over two backends, the second of three dials
panics, and the fifth one will. -/
theorem torn_round_robin_threeTorn :
    ∃ w', run (proceed Env.plain) ((ofSize 3 (.roundRobin ⟨1⟩)).leftBehind threeTorn)
        (tornDials ++ [.start "a:1" none none 0]) = .ok w' ∧
      count (proceed Env.plain) (fun w e => w.reachesStrategy e && w.panics Env.plain e)
        ((ofSize 3 (.roundRobin ⟨1⟩)).leftBehind threeTorn)
        (tornDials ++ [.start "a:1" none none 0]) = 1 ∧
      w'.step Env.plain (.start "a:1" none none 0) = .error (.panic (.indexOutOfBounds 2 2)) := by
  have hends : ends (proceed Env.plain)
      (fun w => w.reachesStrategy (.start "a:1" none none 0))
      ((ofSize 3 (.roundRobin ⟨1⟩)).leftBehind threeTorn)
      (tornDials ++ [.start "a:1" none none 0]) = true := by decide
  obtain ⟨w', hrun, hw⟩ := exists_run_of_ends hends
  have hm : 4 = count (proceed Env.plain) reachesStrategy
      ((ofSize 3 (.roundRobin ⟨1⟩)).leftBehind threeTorn)
      (tornDials ++ [.start "a:1" none none 0]) := by decide
  have hround := torn_round_robin ⟨_, [], initial_ofSize (by decide : 0 < 3) _, rfl⟩ rfl
    removeFirst_threeTorn (by decide) hrun (n := 2) rfl (c := 1) rfl hm
  exact ⟨w', hrun, hround.1, (hround.2 _ hw).1.mpr rfl⟩

end World

end RotaLb
