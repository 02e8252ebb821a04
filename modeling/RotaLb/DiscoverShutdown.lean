import Mathlib.Data.Prod.Lex
import RotaLb.DiscoverTasks

/-!
# The Loops of a `Discover` End

`stop` only sends: it does not wait for the loop, which may be asking the registry, waiting for
the lock of the balancer or in the middle of a reconciliation. The lock is all that loops wait for,
and the loop that has it never waits. A tick may still win the next `select!` against the signal;
without one, each event of a loop brings it nearer to its end, first by phases and inside the lock
by rounds.

## Main results

* `Stopping.step`: every event of a loop but a tick lowers `distance`.
* `Stopping.goes_on`: **no deadlock** — as long as a loop has not ended, some loop can go on.
* `stop_drains`: **after `stop` the loops end, under every schedule**.
-/

namespace RotaLb

open Rust StepSystem

namespace Tasks

variable {σ : Type} [BalanceStrategy σ] {env : Env} {s s' : Tasks σ}

/-! ### The distance to the end -/

/-- What is left to the loops. A round of a reconciliation counts less than a phase. -/
def distance (loops : List Loop) : ℕ ×ₗ ℕ :=
  toLex (Keyed.total (fun l => l.phase.rank) loops, Keyed.total (fun l => l.phase.rounds) loops)

omit [BalanceStrategy σ] in
/-- A loop that moves on brings all of them nearer to the end. -/
theorem distance_goto {k : ℕ} {l : Loop} {phase : LoopPhase} (hl : s.loops[k]? = some l)
    (h : phase.rank < l.phase.rank ∨ phase.rank = l.phase.rank ∧ phase.rounds < l.phase.rounds) :
    distance (s.goto k phase).loops < distance s.loops := by
  have hrank := Keyed.total_modify_add (fun l : Loop => l.phase.rank)
    (fun l => { l with phase }) hl
  have hrounds := Keyed.total_modify_add (fun l : Loop => l.phase.rounds)
    (fun l => { l with phase }) hl
  rw [distance, distance, Prod.Lex.toLex_lt_toLex]
  simp only [Tasks.goto] at hrank hrounds ⊢
  omega

/-- The loops were told to end and no client keeps the lock. -/
structure Stopping (s : Tasks σ) : Prop where
  locked : Locked s
  signalled : ∀ b ∈ s.loops.map Loop.signalled, b = true
  client : s.holder ≠ some .client

/-- A loop's own event moves one loop. -/
theorem step_finishing {e : TaskEvent σ} (he : e.finishing = true) (hs : s.step env e = .ok s') :
    ∃ k l phase, s.loops[k]? = some l ∧ s'.loops = (s.goto k phase).loops ∧
      (phase.rank < l.phase.rank ∨
        phase.rank = l.phase.rank ∧ phase.rounds < l.phase.rounds) ∧
      (s'.holder = some .client → s.holder = some .client) := by
  cases step_effect hs with
  | refused | started | stopped | dropped | clientLocked | clientUnlocked | served => cases he
  | moved hl _ _ _ hrank => exact ⟨_, _, _, hl, rfl, .inl (hrank he), fun h => h⟩
  | locked hl hphase =>
      refine ⟨_, _, _, hl, rfl, .inl ?_, fun hc => by cases hc⟩
      simp [hphase, LoopPhase.rank]
  | kept hl hphase =>
      refine ⟨_, _, _, hl, rfl, .inr ?_, fun h => h⟩
      simp [hphase, LoopPhase.rank, LoopPhase.rounds]
  | removed hl hphase =>
      refine ⟨_, _, _, hl, rfl, .inr ?_, fun h => h⟩
      simp [hphase, LoopPhase.rank, LoopPhase.rounds]
  | swept hl hphase =>
      refine ⟨_, _, _, hl, rfl, .inr ?_, fun h => h⟩
      simp [hphase, LoopPhase.rank, LoopPhase.rounds]
  | known hl hphase =>
      refine ⟨_, _, _, hl, rfl, .inr ?_, fun h => h⟩
      simp [hphase, LoopPhase.rank, LoopPhase.rounds]
  | added hl hphase =>
      refine ⟨_, _, _, hl, rfl, .inr ?_, fun h => h⟩
      simp [hphase, LoopPhase.rank, LoopPhase.rounds]
  | released hl hphase =>
      refine ⟨_, _, .selecting, hl, rfl, .inl ?_, fun hc => by cases hc⟩
      simp [hphase, LoopPhase.rank]

/-- The loops come nearer to their end and stay told to. -/
theorem Stopping.step {e : TaskEvent σ} (h : Stopping s) (he : e.finishing = true)
    (hs : s.step env e = .ok s') : Stopping s' ∧ distance s'.loops < distance s.loops := by
  obtain ⟨k, l, phase, hl, hloops, hlt, hclient⟩ := step_finishing he hs
  refine ⟨⟨step_locked h.locked hs, ?_, fun hc => h.client (hclient hc)⟩, ?_⟩
  · rw [hloops, map_signalled_goto]
    exact h.signalled
  · rw [hloops]
    exact distance_goto hl hlt

/-! ### No deadlock -/

/-- A reconciling loop can go on. -/
theorem goes_on_inside (env : Env) (h : Locked s) {k : ℕ} {l : Loop}
    (hl : s.loops[k]? = some l) (hr : l.phase.reconciling = true) :
    ∃ e : TaskEvent σ, e.finishing = true ∧ ∃ s', s.step env e = .ok s' := by
  obtain ⟨hk, hd⟩ := h.holder_of_phase hl hr
  cases hphase : l.phase with
  | removing found current ids =>
      refine ⟨.removeNext k, rfl, ?_⟩
      cases ids with
      | nil => simp [step, onLoop, hl, hphase, removeNext]
      | cons id ids =>
          obtain ⟨w', hw', -⟩ := World.removeBackendById_ids env hd h.sync id
          by_cases hid : id ∈ found.map BackendDescriptor.id
          · exact ⟨_, by simp only [step, onLoop, hl, hphase, removeNext, if_pos hid]; rfl⟩
          · refine ⟨{ s.goto k (.removing found current ids) with world := w' }, ?_⟩
            simp only [step, onLoop, hl, hphase, removeNext, if_neg hid, onWorld]
            exact map_eq_ok.mpr ⟨w', hw', rfl⟩
  | adding found current todo =>
      -- an error of the factory gives the lock back at once
      refine ⟨.addNext k (.error .noBackends), rfl, ?_⟩
      cases todo with
      | nil => simp [step, onLoop, hl, hphase, addNext]
      | cons d todo =>
          by_cases hid : current.contains (some d.id)
          · exact ⟨_, by simp only [step, onLoop, hl, hphase, addNext, if_pos hid]; rfl⟩
          · exact ⟨_, by simp only [step, onLoop, hl, hphase, addNext, if_neg hid]; rfl⟩
  | selecting | discovering | waiting | ended => rw [hphase] at hr; cases hr

/-- **No deadlock**: a loop that has not ended leaves some loop that can go on. -/
theorem Stopping.goes_on (env : Env) (h : Stopping s) {k : ℕ} {l : Loop}
    (hl : s.loops[k]? = some l) (hlive : l.phase ≠ .ended) :
    ∃ e : TaskEvent σ, e.finishing = true ∧ ∃ s', s.step env e = .ok s' := by
  cases hholder : s.holder with
  | some holder =>
      cases holder with
      | client => exact absurd hholder h.client
      | loop j =>
          have hlt := h.locked.holder j hholder
          have hj : s.loops[j]? = some s.loops[j] := List.getElem?_eq_getElem hlt
          exact goes_on_inside env h.locked hj ((h.locked.holds j _ hj).mpr hholder)
  | none =>
      cases hphase : l.phase with
      | ended => exact absurd hphase hlive
      | selecting =>
          have hs : l.signalled = true :=
            h.signalled _ (List.mem_map_of_mem (List.mem_of_getElem? hl))
          exact ⟨.quit k, rfl, by simp [Tasks.step, onLoop, hl, hphase, hs]⟩
      | discovering => exact ⟨.found k (.ok []), rfl, by simp [Tasks.step, onLoop, hl, hphase]⟩
      | waiting found => exact ⟨.lock k, rfl, by simp [Tasks.step, onLoop, hl, hphase, hholder]⟩
      | removing =>
          have := (h.locked.holds k l hl).mp (by rw [hphase]; rfl)
          rw [hholder] at this
          cases this
      | adding =>
          have := (h.locked.holds k l hl).mp (by rw [hphase]; rfl)
          rw [hholder] at this
          cases this

/-- **After `stop` the loops end, under every schedule.** Once all loops are told to end and no
client keeps the lock, whatever the registry and the factory answer: the loops cannot go on for
ever without another tick, and when none of them can go on all have ended and the lock is free. -/
theorem stop_drains (h : Reaches (step env) (Start env) s)
    (hsignalled : ∀ (k : ℕ) (l : Loop), s.loops[k]? = some l → l.signalled = true)
    (hclient : s.holder ≠ some .client) :
    (∀ schedule : ℕ → TaskEvent σ, (∀ n, (schedule n).finishing = true) →
      ∃ n, ∀ s', run (step env) s ((List.range n).map schedule) ≠ .ok s') ∧
    ∀ es s', (∀ e ∈ es, e.finishing = true) → run (step env) s es = .ok s' →
      (∀ e : TaskEvent σ, e.finishing = true → ∀ s'', s'.step env e ≠ .ok s'') →
      (∀ (k : ℕ) (l : Loop), s'.loops[k]? = some l → l.phase = .ended) ∧ s'.holder = none := by
  have hstop : Stopping s := by
    refine ⟨reaches_locked h, fun b hb => ?_, hclient⟩
    obtain ⟨l, hmem, rfl⟩ := List.mem_map.mp hb
    obtain ⟨k, hk⟩ := List.mem_iff_getElem?.mp hmem
    exact hsignalled k l hk
  refine ⟨fun schedule hP => ?_, fun es s' hes hrun hstuck => ?_⟩
  · exact exists_run_ne_ok (I := Stopping) (P := fun e => e.finishing = true)
      (fun _ _ _ hI he hs => hI.step he hs) hstop schedule hP
  · have hstop' : Stopping s' :=
      run_invariant_along (C := fun _ (e : TaskEvent σ) => e.finishing = true)
        (fun _ _ _ hI he hs => (hI.step he hs).1) hstop (along_of_forall hes) hrun
    have hended : ∀ (k : ℕ) (l : Loop), s'.loops[k]? = some l → l.phase = .ended := by
      intro k l hl
      by_contra hlive
      obtain ⟨e, he, s'', hs⟩ := hstop'.goes_on env hl hlive
      exact hstuck e he s'' hs
    refine ⟨hended, ?_⟩
    -- a loop that holds the lock has not ended
    cases hholder : s'.holder with
    | none => rfl
    | some holder =>
        cases holder with
        | client => exact absurd hholder hstop'.client
        | loop j =>
            have hj := List.getElem?_eq_getElem (hstop'.locked.holder j hholder)
            have hr := (hstop'.locked.holds j _ hj).mpr hholder
            rw [hended j _ hj] at hr
            cases hr

/-- `stop` comes while the second loop of `twoLoops` has the lock and the first is at `select!`. -/
theorem stop_drains_twoLoops :
    ∃ s, run (step Env.plain) (fresh (World.ofSize 1 (Builtin.roundRobin ⟨0⟩)))
        (twoLoops ++ [.stop]) = .ok s ∧ s.holder = some (.loop 1) ∧
      (∀ schedule : ℕ → TaskEvent Builtin, (∀ n, (schedule n).finishing = true) →
        ∃ n, ∀ s', run (step Env.plain) s ((List.range n).map schedule) ≠ .ok s') ∧
      ∀ es s', (∀ e ∈ es, e.finishing = true) → run (step Env.plain) s es = .ok s' →
        (∀ e : TaskEvent Builtin, e.finishing = true → ∀ s'', s'.step Env.plain e ≠ .ok s'') →
        s'.holder = none := by
  have hends : ends (step Env.plain) (fun s => decide (s.holder = some (.loop 1) ∧
      ∀ l ∈ s.loops, l.signalled = true))
      (fresh (World.ofSize 1 (Builtin.roundRobin ⟨0⟩))) (twoLoops ++ [.stop]) = true := by decide
  obtain ⟨s, hrun, hs⟩ := exists_run_of_ends hends
  obtain ⟨hholder, hsignalled⟩ := of_decide_eq_true hs
  obtain ⟨hterminates, hended⟩ := stop_drains ⟨_, _, start_ofSize Nat.one_pos _, hrun⟩
    (fun k l hl => hsignalled l (List.mem_of_getElem? hl)) (by simp [hholder])
  exact ⟨s, hrun, hholder, hterminates, fun es s' hes hrun' hstuck =>
    (hended es s' hes hrun' hstuck).2⟩

end Tasks

end RotaLb
