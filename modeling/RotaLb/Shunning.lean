import RotaLb.Routing

/-!
# A Backend That Never Succeeds

`HealthWeighted` charges a backend half a second for each failure in a row and ten milliseconds
for each connection. A dial is a connection until it fails and a failure after that, so a backend
whose dials never succeed pays for every dial it was ever given, and is given no more as soon as
it has paid more than another backend. This holds in every interleaving: a burst of dials that
start before the first of them fails is stopped by the charge for connections, and dials that fail
one after the other are stopped much sooner by the charge for failures.

`Tells p u m` is what the row `m` of such a backend shows of the `p` dials it was given, `u` of
them still unfinished. A cancelled dial stays a connection; a failure counter that has reached its
maximum, by failures or by a drain, shows nothing but that, and keeps all further dials away by
itself. An undrain sets the counter back and is excluded like a success: both are what `redeems`
marks.

## Main results

* `charged_of_pick`: a dial is routed to a backend only if it is charged at most what any other is.
* `Failing.step`: what one event does to a backend that does not succeed.
* `health_weighted_shuns`: **the dials of a backend that never succeeds are bounded**.
-/

namespace RotaLb

open Rust Scan StepSystem

namespace HealthWeighted

/-- The score in 64 bits is at most the true one. -/
theorem wrappedScore_le_trueScore (m : TunnelMetrics) : wrappedScore m ≤ trueScore m := by
  rw [wrappedScore_eq_residue, residue]
  split
  · exact Nat.mod_le _ _
  · rw [trueScore]
    omega

/-- The penalties are charged as long as the round-trip time is not beyond all measure. -/
theorem penalties_le_wrappedScore {m : TunnelMetrics} (hrtt : rttUs m < 2 ^ 63) :
    penalties m ≤ wrappedScore m := by
  have hrecent := m.recentErrors.toNat_lt
  have hactive := m.activeConnections.toNat_lt
  rw [wrappedScore_eq_residue, residue, if_pos (by omega), trueScore, penalties,
    Nat.mod_eq_of_lt (by omega)]
  omega

end HealthWeighted

namespace World

variable {env : Env} {w w' : World Builtin} {i : ℕ}

/-! ### The row of a backend -/

/-- The dials of slot `i` that have not recorded a failure. -/
def unfinished (w : World Builtin) (i : ℕ) : ℕ :=
  w.dials.countP fun d => decide (d.index = i) && !d.phase.settled

/-- The row shows `p` dials, of which `u` are unfinished, or the maximum of failures. -/
def Tells (p u : ℕ) (m : TunnelMetrics) : Prop :=
  m.recentErrors = u32Max ∨ u ≤ m.activeConnections.toNat ∧
    p ≤ m.activeConnections.toNat + m.recentErrors.toNat

/-- Fewer unfinished dials are shown as well. -/
theorem Tells.mono {p u u' : ℕ} {m : TunnelMetrics} (h : Tells p u m) (hu : u' ≤ u) :
    Tells p u' m :=
  h.imp_right fun h => ⟨hu.trans h.1, h.2⟩

/-- A dial becomes a failure. -/
theorem Tells.recordError {p u : ℕ} {m : TunnelMetrics} (h : Tells p (u + 1) m) :
    Tells p u (LoadBalancer.recordError m) := by
  by_cases hmax : m.recentErrors = u32Max
  · left
    rw [LoadBalancer.recordError, hmax]
    rfl
  · obtain ⟨hactive, hp⟩ := h.resolve_left hmax
    have hinc : (saturatingInc m.recentErrors).toNat = m.recentErrors.toNat + 1 := by
      have hne : m.recentErrors ≠ 0xFFFFFFFF := hmax
      rw [saturatingInc, if_neg hne, toNat_add_one hne]
    right
    simp only [LoadBalancer.recordError, toNat_saturatingDec, hinc]
    omega

/-- A dial becomes a connection. -/
theorem Tells.countDial {p u : ℕ} {m : TunnelMetrics} (h : Tells p u m)
    (hfits : m.activeConnections.toNat + 1 < 2 ^ 32) :
    Tells (p + 1) (u + 1) (LoadBalancer.countDial m) := by
  have hinc := toNat_add_one (ne_max_of_toNat_lt hfits)
  refine h.imp_right fun h => ?_
  simp only [LoadBalancer.countDial, hinc]
  omega

/-- The event records a success of slot `i`, or undrains it. -/
def redeems (i : ℕ) (w : World Builtin) : Event Builtin → Bool
  | .lockMetrics k =>
    match w.dials[k]? with
    | some d => decide (d.phase = .successMetrics) && decide (d.index = i)
    | none => false
  | .undrainBackend index => decide (index = i)
  | _ => false

/-- The event starts a dial at slot `i`. -/
def routesTo (env : Env) (i : ℕ) (w : World Builtin) (e : Event Builtin) : Bool :=
  (w.startedAt env e).contains i

/-- No dial, connection or drop is about slot `i`. -/
structure IdleAt (i : ℕ) (w : World Builtin) : Prop where
  dials : ∀ d ∈ w.dials, d.index ≠ i
  guards : ∀ h ∈ w.guards, h.guard.index ≠ i
  drops : ∀ q ∈ w.drops, q.guard.index ≠ i

/-- Slot `i` was given `p` dials and none of them has succeeded. -/
structure Failing (i p : ℕ) (w : World Builtin) : Prop where
  strategy : w.lb.strategy = .healthWeighted
  guards : ∀ h ∈ w.guards, h.guard.index ≠ i
  drops : ∀ q ∈ w.drops, q.guard.index ≠ i
  dials : ∀ d ∈ w.dials, d.index = i → d.phase ≠ .successStrategy
  row : ∃ m, w.lb.metrics[i]? = some m ∧ HealthWeighted.rttUs m < 2 ^ 63 ∧
    Tells p (w.unfinished i) m

/-! ### Dials that move on -/

/-- A dial that moves on from an attempt or from its sleep has not been recorded yet. -/
theorem moved_phase {e : Event Builtin} {k : ℕ} {d : Dial} {phase : Phase}
    (he : (∃ outcome elapsed draw, e = .attempted k outcome elapsed draw) ∨ e = .woke k)
    (hd : w.dials[k]? = some d) (hs : w.step env e = .ok (w.goto k d phase)) :
    phase ≠ .successStrategy := by
  have hlt := (List.getElem?_eq_some_iff.mp hd).1
  have hinj : ∀ phase', w.goto k d phase' = w.goto k d phase → phase' = phase := by
    intro phase' heq
    have hdial := congrArg (fun w : World Builtin => w.dials[k]?.map Dial.phase) heq
    simpa [goto, hlt] using hdial
  rintro rfl
  rcases he with ⟨outcome, elapsed, draw, rfl⟩ | rfl
  · simp only [step, onItem, hd, attempted] at hs
    split at hs
    · rename_i n hphase
      cases hafter : afterAttempt d n outcome elapsed draw with
      | none => simp [hafter] at hs
      | some phase' =>
          simp only [hafter, Except.ok.injEq] at hs
          obtain rfl := hinj _ hs
          obtain ⟨r, -, hr⟩ := Option.map_eq_some_iff.mp hafter
          cases r with
          | ok => cases hr
          | error err =>
              simp only at hr
              split at hr <;> cases hr
    · cases hs
  · simp only [step, onItem, hd, woke] at hs
    split at hs
    · split at hs
      · simp only [Except.ok.injEq] at hs
        cases hinj _ hs
      · cases hs
    · cases hs

/-- A dial in another phase is as unfinished as before if neither phase is settled. -/
theorem unfinished_goto {k : ℕ} {d : Dial} {phase : Phase} (hd : w.dials[k]? = some d)
    (hphase : phase.settled = d.phase.settled) :
    (w.goto k d phase).unfinished i = w.unfinished i := by
  have hset := Keyed.countP_set_add (fun d => decide (d.index = i) && !d.phase.settled) hd
    { d with phase }
  simp only [hphase] at hset
  simp only [unfinished, goto]
  omega

/-- A dial that records its failure is finished. -/
theorem unfinished_goto_settled {k : ℕ} {d : Dial} {phase : Phase} (hd : w.dials[k]? = some d)
    (hold : d.phase.settled = false) (hnew : phase.settled = true) :
    (w.goto k d phase).unfinished i + (if d.index = i then 1 else 0) = w.unfinished i := by
  have hset := Keyed.countP_set_add (fun d => decide (d.index = i) && !d.phase.settled) hd
    { d with phase }
  simp only [hold, hnew, Bool.not_false, Bool.not_true, Bool.and_true, Bool.and_false,
    decide_eq_true_eq, Bool.false_eq_true, if_false] at hset
  simpa only [unfinished, goto, Nat.add_zero] using hset

/-- The dials after one of them has moved on. -/
theorem Failing.dials_goto {p : ℕ} (h : Failing i p w) {k : ℕ} {d : Dial} {phase : Phase}
    (hphase : d.index = i → phase ≠ .successStrategy) :
    ∀ d' ∈ (w.goto k d phase).dials, d'.index = i → d'.phase ≠ .successStrategy := by
  intro d' hd' hi
  rcases List.mem_or_eq_of_mem_set hd' with hd' | rfl
  · exact h.dials d' hd' hi
  · exact hphase hi

/-! ### One event -/

/-- An event that leaves the row of slot `i` alone and makes no dial there unfinished. -/
theorem Failing.congr {p : ℕ} (h : Failing i p w) (hstrategy : w'.lb.strategy = w.lb.strategy)
    (hguards : ∀ h ∈ w'.guards, h.guard.index ≠ i) (hdrops : ∀ q ∈ w'.drops, q.guard.index ≠ i)
    (hdials : ∀ d ∈ w'.dials, d.index = i → d.phase ≠ .successStrategy)
    (hrow : w'.lb.metrics[i]? = w.lb.metrics[i]?) (hunf : w'.unfinished i ≤ w.unfinished i) :
    Failing i p w' := by
  obtain ⟨m, hm, hrtt, htells⟩ := h.row
  exact ⟨hstrategy.trans h.strategy, hguards, hdrops, hdials, m, hrow.trans hm, hrtt,
    htells.mono hunf⟩

/-- Another row was rewritten. -/
theorem getElem?_modify_of_ne {ms : List TunnelMetrics} {j : ℕ} (f : TunnelMetrics → TunnelMetrics)
    (hj : j ≠ i) : (ms.modify j f)[i]? = ms[i]? := by
  rw [List.getElem?_modify]
  simp [hj]

/-- `HealthWeighted` does nothing at a report. -/
theorem Failing.deaf {p k : ℕ} {strategy : Builtin} (h : Failing i p w)
    (hreport : BalanceStrategy.reportSuccess w.lb.strategy k = .ok strategy ∨
      BalanceStrategy.reportError w.lb.strategy k = .ok strategy) : strategy = w.lb.strategy := by
  rw [h.strategy] at hreport ⊢
  rcases hreport with hreport | hreport
  · exact (Except.ok.inj hreport).symm
  · exact (Except.ok.inj hreport).symm

/-- A dial ends, with a connection or without. -/
theorem Failing.eraseDial {p k : ℕ} (h : Failing i p w) (hdials : w'.dials = w.dials.eraseIdx k)
    (hlb : w'.lb.strategy = w.lb.strategy) (hmetrics : w'.lb.metrics = w.lb.metrics)
    (hguards : ∀ x ∈ w'.guards, x.guard.index ≠ i) (hdrops : w'.drops = w.drops) :
    Failing i p w' := by
  refine h.congr hlb hguards (hdrops ▸ h.drops) ?_ (by rw [hmetrics]) ?_
  · rw [hdials]
    exact fun d hd => h.dials d (List.mem_of_mem_eraseIdx hd)
  · rw [unfinished, hdials]
    exact (List.eraseIdx_sublist _ _).countP_le

/-- A dial records its failure. -/
theorem Failing.errored {p k : ℕ} {d : Dial} {err : Error} (h : Failing i p w)
    (hd : w.dials[k]? = some d) (hphase : d.phase = .errorMetrics err) :
    Failing i p ((w.onMetrics d.index LoadBalancer.recordError).goto k d (.errorStrategy err)) := by
  have hold : d.phase.settled = false := by
    rw [hphase]
    rfl
  have hcount : (w.goto k d (.errorStrategy err)).unfinished i +
      (if d.index = i then 1 else 0) = w.unfinished i := unfinished_goto_settled hd hold rfl
  have hdials := h.dials_goto (k := k) (d := d) fun _ => (by simp : Phase.errorStrategy err ≠ _)
  by_cases hi : d.index = i
  · rw [if_pos hi] at hcount
    obtain ⟨m, hm, hrtt, htells⟩ := h.row
    refine ⟨h.strategy, h.guards, h.drops, hdials, LoadBalancer.recordError m, ?_, hrtt, ?_⟩
    · rw [← hi] at hm ⊢
      simp [goto, onMetrics, hm]
    · rw [← hcount] at htells
      exact htells.recordError
  · rw [if_neg hi] at hcount
    exact h.congr rfl h.guards h.drops hdials (getElem?_modify_of_ne _ hi) hcount.le

/-- A slot is drained. -/
theorem Failing.drained {p index : ℕ} (h : Failing i p w) (entries : List Entry) :
    Failing i p { w.onMetrics index (fun m => { m with recentErrors := u32Max }) with
      log := entries } := by
  by_cases hi : index = i
  · -- the maximum of failures shows nothing else, and need not
    obtain ⟨m, hm, hrtt, -⟩ := h.row
    refine ⟨h.strategy, h.guards, h.drops, h.dials, { m with recentErrors := u32Max }, ?_,
      hrtt, .inl rfl⟩
    rw [← hi] at hm ⊢
    simp [onMetrics, hm]
  · exact h.congr rfl h.guards h.drops h.dials (getElem?_modify_of_ne _ hi) le_rfl

/-- **One event**, in a pool that stays the same, of a backend that does not succeed: what it was
given is still shown. -/
theorem Failing.step {p : ℕ} {e : Event Builtin} (hsync : Sync w) (h : Failing i p w)
    (hs : w.step env e = .ok w') (htags : w'.tags = w.tags)
    (hstart : ∀ addr timeout policy draw, e ≠ .start addr timeout policy draw)
    (hset : ∀ strategy, e ≠ .setStrategy strategy) (hredeems : redeems i w e = false) :
    Failing i p w' := by
  have hguards : ∀ g, ∀ x ∈ w.guards.eraseIdx g, x.guard.index ≠ i :=
    fun g x hx => h.guards x (List.mem_of_mem_eraseIdx hx)
  have hdrops : ∀ g, ∀ x ∈ w.drops.eraseIdx g, x.guard.index ≠ i :=
    fun g x hx => h.drops x (List.mem_of_mem_eraseIdx hx)
  cases step_effect hs with
  | idle => exact h
  | routed => exact absurd rfl (hstart _ _ _ _)
  | @moved _ k d phase he hd hold hnew =>
      exact h.congr rfl h.guards h.drops (h.dials_goto fun _ => moved_phase he hd hs) rfl
        (unfinished_goto hd (hnew.trans hold.symm)).le
  | @succeeded k d hd hphase =>
      have hne : d.index ≠ i := by
        intro hi
        simp [redeems, hd, hphase, hi] at hredeems
      refine h.congr rfl h.guards h.drops (h.dials_goto fun hi => absurd hi hne)
        (getElem?_modify_of_ne _ hne) (unfinished_goto (w := w) hd ?_).le
      rw [hphase]
      rfl
  | errored hd hphase => exact h.errored hd hphase
  | @connected k d strategy hd hphase hreport =>
      -- a connection of slot `i` would come from a success that was recorded there
      have hne : d.index ≠ i := fun hi => h.dials d (List.mem_of_getElem? hd) hi hphase
      refine h.eraseDial rfl (h.deaf (.inl hreport)) rfl (fun x hx => ?_) rfl
      rcases List.mem_append.mp hx with hx | hx
      · exact h.guards x hx
      · rw [List.mem_singleton.mp hx]
        exact hne
  | returned _ _ hreport => exact h.eraseDial rfl (h.deaf (.inr hreport)) rfl h.guards rfl
  | cancelled => exact h.eraseDial rfl rfl rfl h.guards rfl
  | @dropped g x hx =>
      exact h.congr rfl (hguards g) h.drops h.dials
        (getElem?_modify_of_ne _ (h.guards x (List.mem_of_getElem? hx))) le_rfl
  | @stale _ g => exact h.congr rfl (hguards g) h.drops h.dials rfl le_rfl
  | @checked g x hx =>
      refine h.congr rfl (hguards g) (fun q hq => ?_) h.dials rfl le_rfl
      rcases List.mem_append.mp hq with hq | hq
      · exact h.drops q hq
      · rw [List.mem_singleton.mp hq]
        exact h.guards x (List.mem_of_getElem? hx)
  | @written g q hq =>
      exact h.congr rfl h.guards (hdrops g) h.dials
        (getElem?_modify_of_ne _ (h.drops q (List.mem_of_getElem? hq))) le_rfl
  | @contended g => exact h.congr rfl h.guards (hdrops g) h.dials rfl le_rfl
  | entered => exact absurd htags tags_added_ne
  | left _ _ hb => exact absurd htags (tags_afterLeave_ne hb)
  | replaced _ hne => exact absurd htags (tags_afterReplace_ne hsync hne _)
  | drained => exact h.drained _
  | @undrained index =>
      have hne : index ≠ i := by
        intro hi
        simp [redeems, hi] at hredeems
      exact h.congr rfl h.guards h.drops h.dials (getElem?_modify_of_ne _ hne) le_rfl
  | strategySet => exact absurd rfl (hset _)

/-! ### Dials -/

/-- **A dial is routed to a slot only if it is charged at most what any other is.** -/
theorem charged_of_pick {addr : String} {draw idx j B : ℕ} {strategy : Builtin}
    {m m' : TunnelMetrics} (hstrategy : w.lb.strategy = .healthWeighted)
    (hpick : BalanceStrategy.pick env draw w.lb.strategy ⟨addr, w.lb.metrics⟩ =
      .ok (idx, strategy))
    (hm : w.lb.metrics[idx]? = some m) (hrtt : HealthWeighted.rttUs m < 2 ^ 63)
    (hm' : w.lb.metrics[j]? = some m') (hB : HealthWeighted.trueScore m' ≤ B) :
    HealthWeighted.penalties m ≤ B := by
  have hlt := (List.getElem?_eq_some_iff.mp hm').1
  have hview : 0 < PoolView.len ⟨addr, w.lb.metrics⟩ := Nat.zero_lt_of_lt hlt
  obtain ⟨i', hi', hmin⟩ := HealthWeighted.pick_isFirstMin hview
  rw [hstrategy] at hpick
  obtain ⟨i'', hi'', hret⟩ := bind_eq_ok.mp hpick
  cases hi''.symm.trans hi'
  obtain ⟨rfl, -⟩ := Prod.mk.inj (Except.ok.inj hret)
  have hle := hmin.le j hlt
  rw [keyAt_of_getElem? hm, keyAt_of_getElem? hm'] at hle
  calc HealthWeighted.penalties m
      ≤ HealthWeighted.wrappedScore m := HealthWeighted.penalties_le_wrappedScore hrtt
    _ ≤ HealthWeighted.wrappedScore m' := hle
    _ ≤ HealthWeighted.trueScore m' := HealthWeighted.wrappedScore_le_trueScore m'
    _ ≤ B := hB

/-- `HealthWeighted` keeps no state. -/
theorem strategy_of_pick {addr : String} {draw idx : ℕ} {strategy : Builtin}
    (hstrategy : w.lb.strategy = .healthWeighted)
    (hpick : BalanceStrategy.pick env draw w.lb.strategy ⟨addr, w.lb.metrics⟩ =
      .ok (idx, strategy)) : strategy = .healthWeighted := by
  rw [hstrategy] at hpick
  obtain ⟨i', -, hret⟩ := bind_eq_ok.mp hpick
  exact (Prod.mk.inj (Except.ok.inj hret)).2.symm

/-- The dials after one more was routed. -/
theorem Failing.dials_afterRoute {p idx : ℕ} (h : Failing i p w) (strategy : Builtin) {d : Dial}
    (hphase : d.phase = .awaitDial 1) :
    ∀ d' ∈ (w.afterRoute idx strategy d).dials, d'.index = i → d'.phase ≠ .successStrategy := by
  intro d' hd' hi
  rcases List.mem_append.mp hd' with hd' | hd'
  · exact h.dials d' hd' hi
  · rw [List.mem_singleton.mp hd', hphase]
    simp

/-- A dial is routed elsewhere. -/
theorem Failing.elsewhere {p idx : ℕ} (h : Failing i p w) {d : Dial} (hindex : d.index = idx)
    (hphase : d.phase = .awaitDial 1) (hne : idx ≠ i) :
    Failing i p (w.afterRoute idx .healthWeighted d) := by
  refine h.congr h.strategy.symm h.guards h.drops (h.dials_afterRoute _ hphase)
    (getElem?_modify_of_ne _ hne) ?_
  simp [unfinished, afterRoute, List.countP_append, hindex, hne]

/-- A dial is routed to slot `i`: its charges have not gone beyond `B` yet. -/
theorem Failing.routed {p B : ℕ} (h : Failing i p w) {d : Dial} (hindex : d.index = i)
    (hphase : d.phase = .awaitDial 1) (hB : B < 10000 * (2 ^ 32 - 1))
    (hcharged : ∀ m, w.lb.metrics[i]? = some m → HealthWeighted.rttUs m < 2 ^ 63 →
      HealthWeighted.penalties m ≤ B) :
    Failing i (p + 1) (w.afterRoute i .healthWeighted d) ∧ 10000 * p ≤ B ∧
      ∀ m, w.lb.metrics[i]? = some m → 500000 * p ≤ B + 500000 * m.activeConnections.toNat := by
  obtain ⟨m, hm, hrtt, htells⟩ := h.row
  have hpenalties := hcharged m hm hrtt
  rw [HealthWeighted.penalties] at hpenalties
  have hmax : m.recentErrors ≠ u32Max := by
    intro hmax
    have hnum : u32Max.toNat = 2 ^ 32 - 1 := rfl
    rw [hmax, hnum] at hpenalties
    omega
  obtain ⟨-, hp⟩ := htells.resolve_left hmax
  refine ⟨⟨rfl, h.guards, h.drops, h.dials_afterRoute _ hphase, LoadBalancer.countDial m, ?_, hrtt,
    ?_⟩, by omega, fun m' hm' => ?_⟩
  · simp [afterRoute, hm]
  · have hcount : (w.afterRoute i .healthWeighted d).unfinished i = w.unfinished i + 1 := by
      simp [unfinished, afterRoute, List.countP_append, hindex, hphase, Phase.settled]
    rw [hcount]
    exact htells.countDial (by omega)
  · obtain rfl := Option.some.inj (hm.symm.trans hm')
    omega

/-! ### Whole runs -/

/-- **A backend that never succeeds is shunned.** In a balancer with `HealthWeighted` and a fixed
pool, let slot `i` be idle at the beginning, with a round-trip time below `2 ^ 63` microseconds, and
let it never be undrained and no success be recorded there, while at every moment some other slot
has a score of at most `B`, which is below what a failure counter at its maximum is charged. Then in
every interleaving the slot is given at most `B / 10000 + 1` dials, however many start before the
first of them fails, and at most `B / 500000 + c + 1` as long as its count of connections does not
exceed `c`. An undrain would forget the failures: after it the slot may be given as many again. -/
theorem health_weighted_shuns {w₀ w : World Builtin} {es : List (Event Builtin)}
    {m₀ : TunnelMetrics} {B c : ℕ} (hreach : Reaches (step env) Initial w₀)
    (hstrategy : w₀.lb.strategy = .healthWeighted) (hB : B < 10000 * (2 ^ 32 - 1))
    (hm₀ : w₀.lb.metrics[i]? = some m₀) (hrtt : HealthWeighted.rttUs m₀ < 2 ^ 63)
    (hidle : IdleAt i w₀) (hrun : run (step env) w₀ es = .ok w)
    (hpool : Throughout (step env) (fun w => w.tags = w₀.tags) w₀ es)
    (hset : ∀ e ∈ es, ∀ strategy, e ≠ .setStrategy strategy)
    (hfails : Along (step env) (fun w e => redeems i w e = false) w₀ es)
    (hother : Throughout (step env) (fun w => ∃ m ∈ w.lb.metrics.eraseIdx i,
      HealthWeighted.trueScore m ≤ B) w₀ es)
    (hload : Throughout (step env) (fun w => ∀ m ∈ w.lb.metrics[i]?,
      m.activeConnections.toNat ≤ c) w₀ es) :
    count (step env) (routesTo env i) w₀ es ≤ B / 10000 + 1 ∧
      count (step env) (routesTo env i) w₀ es ≤ B / 500000 + c + 1 := by
  have hfailing : Failing i 0 w₀ := by
    refine ⟨hstrategy, hidle.guards, hidle.drops, fun d hd hi => absurd hi (hidle.dials d hd), m₀,
      hm₀, hrtt, ?_⟩
    have hnone : w₀.unfinished i = 0 :=
      List.countP_eq_zero.mpr fun d hd => by simp [hidle.dials d hd]
    exact .inr ⟨hnone ▸ Nat.zero_le _, Nat.zero_le _⟩
  have hlast := run_count (n := 0) (q := routesTo env i)
    (R := fun p w => Sync w ∧ w.tags = w₀.tags ∧ Failing i p w ∧ p ≤ B / 10000 + 1 ∧
      p ≤ B / 500000 + c + 1)
    ?_ ⟨reaches_sync hreach, rfl, hfailing, Nat.zero_le _, Nat.zero_le _⟩
    (((hpool.along.and (along_of_forall hset)).and hfails).and (hother.before.and hload.before))
    hrun
  · rw [Nat.zero_add] at hlast
    exact hlast.2.2.2
  · rintro p w e w' ⟨hsync, htags, hfailing, hp, hp'⟩
      ⟨⟨⟨htags', hset⟩, hredeems⟩, ⟨m, hmem, hscore⟩, hload⟩ hs
    have hsync' := step_sync hsync hs
    rcases startedAt_cases hs with ⟨-, hnone, hstart | rfl⟩ |
      ⟨addr, timeout, policy, draw, idx, strategy, d, rfl, -, hpick, -, hindex, hphase, rfl, hat⟩
    · rw [routesTo, hnone]
      exact ⟨hsync', htags' w' hs, hfailing.step hsync hs ((htags' w' hs).trans htags.symm) hstart
        hset hredeems, hp, hp'⟩
    · rw [routesTo, hnone]
      exact ⟨hsync, htags, hfailing, hp, hp'⟩
    · obtain rfl := strategy_of_pick hfailing.strategy hpick
      rw [routesTo, hat]
      by_cases hi : idx = i
      · subst hi
        obtain ⟨j, hm⟩ := List.mem_iff_getElem?.mp (List.mem_of_mem_eraseIdx hmem)
        obtain ⟨hfailing', hfirst, hsecond⟩ := hfailing.routed hindex hphase hB
          fun m' hm' hrtt' => charged_of_pick hfailing.strategy hpick hm' hrtt' hm hscore
        obtain ⟨m', hm', -⟩ := hfailing.row
        have hactive := hload m' hm'
        have hsecond := hsecond m' hm'
        simp only [List.contains_cons, beq_self_eq_true, Bool.true_or, if_true]
        exact ⟨hsync', htags' _ hs, hfailing', by omega, by omega⟩
      · have hcontains : [idx].contains i = false := by simp [Ne.symm hi]
        rw [hcontains]
        exact ⟨hsync', htags' _ hs, hfailing.elsewhere hindex hphase hi, hp, hp'⟩

/-- A backend at 1 ms and one at 600 ms. -/
def nearAndFar : List TunnelMetrics :=
  [{ rtt := some (.fromMillis 1) }, { rtt := some (.fromMillis 600) }]

/-- Two dials of the near backend, the second started before the first fails, then two of the far
one, the first of them connected. -/
def shunRun : List (Event Builtin) :=
  .start "a:1" none none 0 :: Event.failing 1 ++
    [.attempted 0 (.failed .noBackends) (Duration.fromMillis 0) 0, .lockMetrics 0, .lockStrategy 0]
    ++ Event.connecting 0 ++ [.start "a:1" none none 0]

theorem health_weighted_shuns_shunRun :
    count (step Env.plain) (routesTo Env.plain 0) (ofSeeds nearAndFar Builtin.healthWeighted)
      shunRun = 2 ∧
    count (step Env.plain) (routesTo Env.plain 0) (ofSeeds nearAndFar Builtin.healthWeighted)
      shunRun ≤ 620000 / 500000 + 2 + 1 := by
  have hends : ends (step Env.plain) (fun _ => true) (ofSeeds nearAndFar Builtin.healthWeighted)
      shunRun = true := by decide
  obtain ⟨w, hrun, -⟩ := exists_run_of_ends hends
  refine ⟨by decide, ?_⟩
  have hidle : IdleAt 0 (ofSeeds nearAndFar Builtin.healthWeighted) :=
    ⟨by decide, by decide, by decide⟩
  exact (health_weighted_shuns ⟨_, [], initial_ofSeeds (by decide) _, rfl⟩ rfl (by decide) rfl
    (by decide) hidle hrun (by decide) (by simp [shunRun, Event.failing, Event.connecting])
    (by decide) (by decide) (by decide)).2

end World

end RotaLb
