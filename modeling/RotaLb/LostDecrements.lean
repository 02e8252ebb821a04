import RotaLb.DirectRuns

/-!
# Lost Decrements

Nothing ever repairs a count: the only writes to `active_connections` are the increment of
a dial, the decrement of a failed dial and the decrement of a drop. So a decrement that is
lost stays lost for as long as its backend is in the pool, and the true value is reached
again only in runs that lose none.

Two events lose one while drops run in one step (`World.loses`): dropping a connection after
the generation has changed, and cancelling a dial at any await point but the last one of a
failed dial.

## Main results

* `never_converges`: **a count that stays above zero** with no connection left, whatever is
  done next.
* `converges_iff`: when nothing is open any more, the counts of the pool are zero exactly
  when no connection to a backend of the pool was dropped after its generation had passed.
* `cancelled_dial_counted`: **a cancelled dial that stays counted**.
* `cancel_clean_iff`: without reconfiguration, the counts show the live connections and the
  dials in progress exactly when every cancellation met a dial whose failure was recorded.
-/

namespace RotaLb

open Rust StepSystem Ledger

variable {σ : Type}

namespace World

/-! ### Zero seeds -/

/-- Every backend that entered was seeded with no connections. -/
def ZeroSeeded (w : World σ) : Prop :=
  ∀ t id seed, Entry.entered t id seed ∈ w.log → seed.activeConnections = 0

/-- Every backend that enters later enters with no connections. -/
theorem step_zeroSeeded [BalanceStrategy σ] {env : Env} {w w' : World σ} {e : Event σ}
    (h : ZeroSeeded w) (hs : w.step env e = .ok w') : ZeroSeeded w' := by
  intro t id seed hmem
  rcases mem_log_of_step hs hmem with hold | hnew
  · exact h t id seed hold
  · obtain rfl : seed = default := hnew
    rfl

/-- A balancer whose metrics start without connections. -/
theorem initial_zeroSeeded {w : World σ} (h : w.Initial)
    (hzero : ∀ m ∈ w.lb.metrics, m.activeConnections = 0) : ZeroSeeded w := by
  obtain ⟨lb, seeds, hc, -, rfl⟩ := h
  obtain ⟨rfl, -⟩ := hc.constructed
  intro t id seed hmem
  obtain ⟨x, hx, he⟩ := List.mem_map.mp hmem
  cases he
  exact hzero x.2 (List.of_mem_zip hx).2

/-- **Counts in a run of direct events from zero**: dials in progress, live connections and
lost decrements. -/
theorem run_direct_zero [BalanceStrategy σ] {env : Env} {w₀ w : World σ} {es : List (Event σ)}
    (h₀ : w₀.Initial) (hzero : ∀ m ∈ w₀.lb.metrics, m.activeConnections = 0)
    (hes : ∀ e ∈ es, e.Direct) (hb : Throughout (step env) Bounded w₀ es)
    (hrun : run (step env) w₀ es = .ok w) (i : ℕ) (x : Member) (m : TunnelMetrics)
    (hx : w.pool.members[i]? = some x) (hm : w.lb.metrics[i]? = some m) :
    m.activeConnections.toNat = w.inProgress x.tag + w.live x.tag + w.leaks x.tag := by
  obtain ⟨hexact, hdrops, -⟩ := run_direct h₀ hes hb hrun
  have hseeded : ZeroSeeded w :=
    run_invariant (fun _ _ _ => step_zeroSeeded) (initial_zeroSeeded h₀ hzero) hrun
  have hseed : x.seed.activeConnections = 0 :=
    hseeded _ _ _ (Pool.entered_of_mem (List.mem_of_getElem? hx))
  rw [balanced_iff.mp hexact.balanced i x m hx hm, load_of_drops_nil hdrops, hseed]
  exact Nat.zero_add _

/-- A backend has no leaks after a run exactly when no event lost a decrement of it. -/
theorem run_leaks_eq_zero_iff [BalanceStrategy σ] {env : Env} {w₀ w : World σ}
    {es : List (Event σ)} (h₀ : w₀.Initial) (hes : ∀ e ∈ es, e.Direct)
    (hb : Throughout (step env) Bounded w₀ es) (hrun : run (step env) w₀ es = .ok w) (t : ℕ) :
    w.leaks t = 0 ↔ Along (step env) (fun w e => w.loses t e = false) w₀ es := by
  rw [run_leaks h₀ hes hb hrun, count_eq_zero_iff hrun]

/-- **In a run of direct events from zero** no decrement of the pool is lost exactly when the
counts show the live connections and the dials in progress. -/
theorem run_leaks_iff_counts [BalanceStrategy σ] {env : Env} {w₀ w : World σ}
    {es : List (Event σ)} (h₀ : w₀.Initial)
    (hzero : ∀ m ∈ w₀.lb.metrics, m.activeConnections = 0) (hes : ∀ e ∈ es, e.Direct)
    (hb : Throughout (step env) Bounded w₀ es) (hrun : run (step env) w₀ es = .ok w) :
    (∀ t ∈ w.tags, w.leaks t = 0) ↔
      ∀ (i : ℕ) (x : Member) (m : TunnelMetrics), w.pool.members[i]? = some x →
        w.lb.metrics[i]? = some m →
        m.activeConnections.toNat = w.live x.tag + w.inProgress x.tag := by
  have hcount := run_direct_zero h₀ hzero hes hb hrun
  have hsync : Sync w := (run_direct h₀ hes hb hrun).1.sound.sync
  constructor
  · intro hleaks i x m hx hm
    have hmem : x.tag ∈ w.tags := hsync.tags ▸ List.mem_map_of_mem (List.mem_of_getElem? hx)
    rw [hcount i x m hx hm, hleaks x.tag hmem]
    omega
  · intro hclean t ht
    obtain ⟨i, hi⟩ := List.mem_iff_getElem?.mp ht
    obtain ⟨x, m, hx, rfl, hm⟩ := hsync.slot hi
    have h1 := hcount i x m hx hm
    have h2 := hclean i x m hx hm
    omega

/-! ### Convergence -/

/-- A connection to the first of two backends, the removal of the second, the drop of the
connection, and then one more dial, connected and dropped. -/
def skippedDropRun : List (Event Builtin) :=
  Event.connecting 0 ++ [.removeBackend 1, .drop 0] ++ Event.connecting 0 ++ [.drop 0]

/-- **A count that does not converge**: no connection is live, no dial is in progress, and
the backend still shows one connection after a further dial and drop. -/
theorem never_converges :
    ∃ w, run (step Env.plain) (ofSize 2 (.roundRobin ⟨0⟩)) skippedDropRun = .ok w ∧
      w.dials = [] ∧ w.guards = [] ∧ w.drops = [] ∧ w.tags = [0] ∧
      w.lb.metrics.map TunnelMetrics.activeConnections = [1] := by
  have hends : ends (step Env.plain) (fun w => decide (w.dials.isEmpty ∧ w.guards = [] ∧
      w.drops = [] ∧ w.tags = [0] ∧ w.lb.metrics.map TunnelMetrics.activeConnections = [1]))
      (ofSize 2 (.roundRobin ⟨0⟩)) skippedDropRun = true := by decide
  obtain ⟨w, hrun, hw⟩ := exists_run_of_ends hends
  obtain ⟨hdials, hrest⟩ := of_decide_eq_true hw
  exact ⟨w, hrun, List.isEmpty_iff.mp hdials, hrest⟩

/-- **Convergence, exactly.** When no connection is live and no dial is in progress, after a
run of completed dials, drops and reconfigurations from zero counts, all counts are zero if
and only if no connection to a backend still in the pool was dropped after its generation
had passed. -/
theorem converges_iff [BalanceStrategy σ] {env : Env} {w₀ w : World σ} {es : List (Event σ)}
    (h₀ : w₀.Initial) (hzero : ∀ m ∈ w₀.lb.metrics, m.activeConnections = 0)
    (hes : ∀ e ∈ es, e.Calm) (hb : Throughout (step env) Bounded w₀ es)
    (hrun : run (step env) w₀ es = .ok w) (hdials : w.dials = []) (hguards : w.guards = []) :
    (∀ t ∈ w.tags, Along (step env) (fun w e => w.loses t e = false) w₀ es) ↔
      ∀ m ∈ w.lb.metrics, m.activeConnections = 0 := by
  have hdirect : ∀ e ∈ es, e.Direct := fun e he => (hes e he).direct
  have hsync : Sync w := (run_direct h₀ hdirect hb hrun).1.sound.sync
  have hopen : ∀ t, w.live t + w.inProgress t = 0 := fun t => by
    rw [live, inProgress, hguards, hdials, List.countP_nil, List.countP_nil]
  have hleaks := run_leaks_iff_counts h₀ hzero hdirect hb hrun
  constructor
  · intro hclean m hm
    obtain ⟨i, hi⟩ := List.mem_iff_getElem?.mp hm
    have hlt : i < w.pool.members.length :=
      hsync.length.2.2 ▸ (List.getElem?_eq_some_iff.mp hi).1
    have hcount := hleaks.mp fun t ht =>
      (run_leaks_eq_zero_iff h₀ hdirect hb hrun t).mpr (hclean t ht)
    exact UInt32.toNat_inj.mp
      ((hcount i _ m (List.getElem?_eq_getElem hlt) hi).trans (hopen _))
  · intro hall t ht
    refine (run_leaks_eq_zero_iff h₀ hdirect hb hrun t).mp (hleaks.mpr ?_ t ht)
    intro i x m hx hm
    rw [hall m (List.mem_of_getElem? hm), hopen]
    rfl

/-- The connection dropped before the removal instead of after it. -/
def promptDropRun : List (Event Builtin) :=
  Event.connecting 0 ++ [.drop 0, .removeBackend 1] ++ Event.connecting 0 ++ [.drop 0]

theorem converges_promptDropRun :
    ∃ w, run (step Env.plain) (ofSize 2 (.roundRobin ⟨0⟩)) promptDropRun = .ok w ∧
      w.tags = [0] ∧ ∀ m ∈ w.lb.metrics, m.activeConnections = 0 := by
  have hends : ends (step Env.plain) (fun w => decide (w.dials.isEmpty ∧ w.guards = [] ∧
      w.tags = [0])) (ofSize 2 (.roundRobin ⟨0⟩)) promptDropRun = true := by decide
  have hb : Throughout (step Env.plain) Bounded (ofSize 2 (.roundRobin ⟨0⟩)) promptDropRun := by
    decide
  have hcalm : ∀ e ∈ promptDropRun, e.Calm := by
    simp [promptDropRun, Event.connecting, Event.Calm]
  have hclean : Along (step Env.plain) (fun w e => w.loses 0 e = false)
      (ofSize 2 (.roundRobin ⟨0⟩)) promptDropRun := by decide
  obtain ⟨w, hrun, hw⟩ := exists_run_of_ends hends
  obtain ⟨hdials, hguards, htags⟩ := of_decide_eq_true hw
  refine ⟨w, hrun, htags, (converges_iff (initial_ofSize Nat.two_pos _) (by decide) hcalm hb hrun
    (List.isEmpty_iff.mp hdials) hguards).mp fun t ht => ?_⟩
  rw [htags] at ht
  rw [List.mem_singleton.mp ht]
  exact hclean

end World

/-! ### Cancellation -/

/-- The event is one of a dial or of a drop in one step: no reconfiguration. -/
def Event.Serving : Event σ → Prop
  | .start .. | .attempted .. | .woke _ | .lockMetrics _ | .lockStrategy _ | .cancel _ | .drop _ =>
    True
  | _ => False

/-- Serving events are direct. -/
theorem Event.Serving.direct {e : Event σ} (h : e.Serving) : e.Direct := by
  cases e <;> first | exact h | trivial

namespace World

/-- A cancellation, if the event is one, meets a dial whose failure is recorded: one that
waits for the strategy lock of `handle_dial_error`. -/
def LateCancel (w : World σ) : Event σ → Prop
  | .cancel k => ∀ d ∈ w.dials[k]?, d.phase.settled = true
  | _ => True

/-- Serving events leave the pool and its generation alone. -/
theorem step_serving [BalanceStrategy σ] {env : Env} {w w' : World σ} {e : Event σ}
    (he : e.Serving) (hs : w.step env e = .ok w') : w'.tags = w.tags ∧ w'.epoch = w.epoch := by
  cases step_effect hs with
  | checked | written | contended | replaced | drained | undrained | strategySet => exact he.elim
  | entered _ hadd => rcases hadd with ⟨rfl, -⟩ | ⟨_, rfl, -⟩ <;> exact he.elim
  | left _ hremove => cases e <;> first | exact he.elim | cases hremove
  | _ => exact ⟨rfl, rfl⟩

/-- In the first generation no drop comes too late. -/
theorem loses_drop_eq_false {w : World σ} (hp : Placed w) (hepoch : w.epoch = 0) (t g : ℕ) :
    w.loses t (.drop g) = false := by
  rw [loses]
  cases hg : w.guards[g]? with
  | none => rfl
  | some h =>
      obtain ⟨hle, hmade, -⟩ := hp.guards h (List.mem_of_getElem? hg)
      have hsame : w.lb.generation = h.guard.genAtCreation := by
        rw [hepoch, Nat.le_zero] at hle
        rw [hp.generation, hmade, hepoch, hle]
      simp [hsame]

/-- Without reconfiguration an event loses no decrement of the pool exactly when it does not
cancel a dial early. -/
theorem lateCancel_iff {w : World σ} {e : Event σ} (hp : Placed w) (hepoch : w.epoch = 0)
    (he : e.Serving) : LateCancel w e ↔ ∀ t ∈ w.tags, w.loses t e = false := by
  cases e with
  | cancel k =>
      constructor
      · intro hlate t _
        rw [loses]
        cases hd : w.dials[k]? with
        | none => rfl
        | some d => simp [Dial.owes, hlate d hd]
      · intro hclean d hd
        have hslot := (hp.dials d (List.mem_of_getElem? hd)).1
        have hlose := hclean d.owner (List.mem_of_getElem? hslot)
        rw [loses, Option.mem_def.mp hd, Option.any_some] at hlose
        simpa [Dial.owes] using hlose
  | drop g => exact ⟨fun _ t _ => loses_drop_eq_false hp hepoch t g, fun _ => trivial⟩
  | _ => exact ⟨fun _ _ _ => rfl, fun _ => trivial⟩

/-- **Early cancellations are what loses decrements** in a run without reconfiguration. -/
theorem run_lateCancel_iff [BalanceStrategy σ] {env : Env} {w₀ w : World σ}
    {es : List (Event σ)} (h₀ : w₀.Initial) (hes : ∀ e ∈ es, e.Serving)
    (hb : Throughout (step env) Bounded w₀ es) (hrun : run (step env) w₀ es = .ok w) :
    Along (step env) LateCancel w₀ es ↔ ∀ t ∈ w.tags, w.leaks t = 0 := by
  have hserving : Along (step env) (fun _ e => e.Serving) w₀ es := along_of_forall hes
  have hepoch₀ : w₀.epoch = 0 := by
    obtain ⟨lb, seeds, -, -, rfl⟩ := h₀
    rfl
  -- the backends stay the same, so one condition for each of them covers the whole run
  have htags : w.tags = w₀.tags :=
    run_invariant_along (I := fun w => w.tags = w₀.tags)
      (fun _ _ _ h he hs => (step_serving he hs).1.trans h) rfl hserving hrun
  calc Along (step env) LateCancel w₀ es
      ↔ Along (step env) (fun w e => ∀ t, t ∈ w₀.tags → w.loses t e = false) w₀ es := by
        refine along_congr (I := fun w => Sound w ∧ w.epoch = 0 ∧ w.tags = w₀.tags) ?_ ?_
          ⟨initial_sound h₀, hepoch₀, rfl⟩ hserving
        · rintro w e w' ⟨hsound, hepoch, hsame⟩ he hs
          obtain ⟨htags', hepoch'⟩ := step_serving he hs
          exact ⟨step_sound hsound hs, hepoch'.trans hepoch, htags'.trans hsame⟩
        · rintro w e ⟨hsound, hepoch, hsame⟩ he
          rw [← hsame]
          exact lateCancel_iff hsound.placed hepoch he
    _ ↔ ∀ t ∈ w₀.tags, Along (step env) (fun w e => w.loses t e = false) w₀ es := along_forall
    _ ↔ ∀ t ∈ w.tags, w.leaks t = 0 := by
        rw [htags]
        refine forall₂_congr fun t _ => ?_
        exact (run_leaks_eq_zero_iff h₀ (fun e he => (hes e he).direct) hb hrun t).symm

/-- A dial is cancelled while its first attempt is running. -/
def cancelRun : List (Event Builtin) := [.start "a:1" none none 0, .cancel 0]

/-- **A cancelled dial stays counted**: nothing is open and the backend shows one
connection. -/
theorem cancelled_dial_counted :
    ∃ w, run (step Env.plain) (ofSize 1 (.roundRobin ⟨0⟩)) cancelRun = .ok w ∧
      w.dials = [] ∧ w.guards = [] ∧
      w.lb.metrics.map TunnelMetrics.activeConnections = [1] := by
  have hends : ends (step Env.plain) (fun w => decide (w.dials.isEmpty ∧ w.guards = [] ∧
      w.lb.metrics.map TunnelMetrics.activeConnections = [1]))
      (ofSize 1 (.roundRobin ⟨0⟩)) cancelRun = true := by decide
  obtain ⟨w, hrun, hw⟩ := exists_run_of_ends hends
  obtain ⟨hdials, hrest⟩ := of_decide_eq_true hw
  exact ⟨w, hrun, List.isEmpty_iff.mp hdials, hrest⟩

/-- **Cancellation, exactly.** In every run without reconfiguration from zero counts, the
count of every backend is the number of its live connections plus its dials in progress if
and only if every cancelled dial had already recorded its failure. -/
theorem cancel_clean_iff [BalanceStrategy σ] {env : Env} {w₀ w : World σ} {es : List (Event σ)}
    (h₀ : w₀.Initial) (hzero : ∀ m ∈ w₀.lb.metrics, m.activeConnections = 0)
    (hes : ∀ e ∈ es, e.Serving) (hb : Throughout (step env) Bounded w₀ es)
    (hrun : run (step env) w₀ es = .ok w) :
    Along (step env) LateCancel w₀ es ↔
      ∀ (i : ℕ) (x : Member) (m : TunnelMetrics), w.pool.members[i]? = some x →
        w.lb.metrics[i]? = some m →
        m.activeConnections.toNat = w.live x.tag + w.inProgress x.tag := by
  have hdirect : ∀ e ∈ es, e.Direct := fun e he => (hes e he).direct
  exact (run_lateCancel_iff h₀ hes hb hrun).trans
    (run_leaks_iff_counts h₀ hzero hdirect hb hrun)

/-- One dial in progress, and one cancelled after its failure was recorded. -/
def lateCancelRun : List (Event Builtin) :=
  [.start "a:1" none none 0, .start "a:1" none none 0,
    .attempted 1 (.failed .noBackends) (Duration.fromMillis 0) 0, .lockMetrics 1, .cancel 1]

instance (w : World σ) : DecidablePred (LateCancel w)
  | .cancel k => inferInstanceAs (Decidable (∀ d ∈ w.dials[k]?, _ = _))
  | .dropWrite .. | .start .. | .attempted .. | .woke _ | .lockMetrics _ | .lockStrategy _
  | .drop _ | .dropCheck _ | .addBackend _ | .addBackendWithId .. | .removeBackend _
  | .removeBackendById _ | .removeBackendByPtr _ | .replaceBackends .. | .drainBackend _
  | .undrainBackend _ | .setStrategy _ => .isTrue trivial

theorem cancel_clean_lateCancelRun :
    ∃ w, run (step Env.plain) (ofSize 1 (.roundRobin ⟨0⟩)) lateCancelRun = .ok w ∧
      ∀ (i : ℕ) (x : Member) (m : TunnelMetrics), w.pool.members[i]? = some x →
        w.lb.metrics[i]? = some m →
        m.activeConnections.toNat = w.live x.tag + w.inProgress x.tag := by
  have hends : ends (step Env.plain) (fun _ => true) (ofSize 1 (.roundRobin ⟨0⟩)) lateCancelRun =
      true := by decide
  have hb : Throughout (step Env.plain) Bounded (ofSize 1 (.roundRobin ⟨0⟩)) lateCancelRun := by
    decide
  have hserving : ∀ e ∈ lateCancelRun, e.Serving := by simp [lateCancelRun, Event.Serving]
  have hlate : Along (step Env.plain) LateCancel (ofSize 1 (.roundRobin ⟨0⟩)) lateCancelRun := by
    decide
  obtain ⟨w, hrun, -⟩ := exists_run_of_ends hends
  exact ⟨w, hrun, (cancel_clean_iff (initial_ofSize Nat.one_pos _) (by decide) hserving hb hrun).mp
    hlate⟩

end World

end RotaLb
