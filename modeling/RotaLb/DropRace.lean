import RotaLb.DirectRuns

/-!
# The Race Between a Drop and a Reconfiguration

`ActiveConnectionGuard::drop` compares the generation first and decrements
`metrics[index]` later, under another lock. The owner may remove or replace backends in
between, for the guard holds only `Arc`s. This module takes the two halves apart: `dropCheck`
and `dropWrite` events may stand anywhere in a run.

The decrement reaches the guard's own backend if and only if its slot has not shifted since
the check (`SafeWrite`): a write after a removal at or below the guard's index, or after a
replacement, decrements the count of another backend.

## Main results

* `step_displaced`: after a shift the guard's backend is gone or stands strictly below the
  guard's index.
* `drop_race`: **a run in which a drop decrements another backend's count**, below the
  number of its live connections.
* `faithful_iff_safeWrite`: **decrements go astray exactly by writes after a shift**, and
  counts stay above the live connections without them.
-/

namespace RotaLb

open Rust StepSystem Ledger

variable {σ : Type}

namespace World

/-- A pending drop whose slots have shifted: its backend is gone or stands strictly below
its index. -/
def Displaced (w : World σ) : Prop :=
  ∀ p ∈ w.drops, p.shifted = true → ∀ j, w.tags[j]? = some p.owner → j < p.guard.index

/-- The backend of a guard inside `drop` has a tag that was given out. -/
theorem Sound.owner_lt_fresh {w : World σ} (h : Sound w) {p : Dropping} (hp : p ∈ w.drops) :
    p.owner < w.fresh := by
  refine h.unused.lt_fresh ?_
  have hpos : 0 < w.dropping p.owner := List.countP_pos_iff.mpr ⟨p, hp, by simp⟩
  rw [load]
  omega

/-- The removal of a slot at or below the index pushes the guard's backend below it. -/
theorem Displaced.afterLeave {w : World σ} (hsound : Sound w) (h : Displaced w) (index : ℕ)
    (b : Backend) : Displaced (w.afterLeave index b) := by
  intro p' hp' hshift j hj
  obtain ⟨p, hp, rfl⟩ := List.mem_map.mp hp'
  rw [tags_afterLeave, List.getElem?_eraseIdx] at hj
  change j < p.guard.index
  cases hs : p.shifted with
  | true =>
      split at hj
      · exact h p hp hs j hj
      · exact (Nat.lt_succ_self j).trans (h p hp hs (j + 1) hj)
  | false =>
      -- the check was about this slot, so the backend stood exactly at the index
      have hslot : w.tags[p.guard.index]? = some p.owner := hsound.placed.drops p hp hs
      have hle : index ≤ p.guard.index := by simpa [Dropping.shift, hs] using hshift
      split at hj
      · have := Keyed.eq_of_getElem?_eq hsound.sync.nodup hj hslot
        omega
      · have := Keyed.eq_of_getElem?_eq hsound.sync.nodup hj hslot
        omega

/-- **After a shift the guard's backend is below the guard's index**, whatever happens. -/
theorem step_displaced [BalanceStrategy σ] {env : Env} {w w' : World σ} {e : Event σ}
    (hsound : Sound w) (hb : w.epoch < 2 ^ 64) (h : Displaced w) (hs : w.step env e = .ok w') :
    Displaced w' := by
  cases step_effect hs with
  | idle | routed | moved | succeeded | errored | connected | returned | cancelled | dropped
  | stale | drained | undrained | strategySet => exact h
  | @checked g x hx hgen =>
      intro p hp hshift
      rcases List.mem_append.mp hp with hp | hp
      · exact h p hp hshift
      · obtain rfl := List.mem_singleton.mp hp
        have hepoch := hsound.placed.epoch_eq hb (List.mem_of_getElem? hx) hgen
        exact absurd hepoch (of_decide_eq_true hshift)
  | written | contended => exact fun p hp => h p (List.mem_of_mem_eraseIdx hp)
  | entered =>
      intro p hp hshift j hj
      rw [tags_added] at hj
      by_cases hlt : j < w.tags.length
      · rw [List.getElem?_append_left hlt] at hj
        exact h p hp hshift j hj
      · have hmem : p.owner ∈ [w.fresh] := by
          rw [List.getElem?_append_right (not_lt.mp hlt)] at hj
          exact List.mem_of_getElem? hj
        exact absurd (List.mem_singleton.mp hmem) (hsound.owner_lt_fresh hp).ne
  | left => exact h.afterLeave hsound _ _
  | replaced =>
      intro p' hp' _ j hj
      obtain ⟨p, hp, rfl⟩ := List.mem_map.mp hp'
      rw [tags_afterReplace] at hj
      have hge : w.fresh ≤ p.owner := (List.mem_range'_1.mp (List.mem_of_getElem? hj)).1
      exact absurd (hsound.owner_lt_fresh hp) (not_lt.mpr hge)

/-! ### Reading a run backwards -/

/-- A step after which no decrement has gone astray wrote safely. -/
theorem safeWrite_of_faithful [BalanceStrategy σ] {env : Env} {w w' : World σ} {e : Event σ}
    (hsound : Sound w) (hb : w.epoch < 2 ^ 64) (hdisp : Displaced w) (hs : w.step env e = .ok w')
    (hF : Faithful w') : SafeWrite w e := by
  cases e with
  | drop g => exact safeWrite_of_direct hsound.placed hb trivial
  | dropWrite d free =>
      cases free with
      | false => trivial
      | true =>
          intro p hp
          by_contra hunsafe
          obtain ⟨hshift, hlen⟩ := not_or.mp hunsafe
          have hslot := List.getElem?_eq_getElem (not_le.mp hlen)
          obtain ⟨p', hp', hw⟩ := onItem_eq_ok hs
          obtain rfl : p = p' := Option.some.inj ((Option.mem_def.mp hp).symm.trans hp')
          -- the slot at the index is not the owner's: that one is strictly below
          have hne : w.tags[p.guard.index] ≠ p.owner := fun he =>
            (hdisp p (List.mem_of_getElem? hp') (Bool.eq_true_of_not_eq_false hshift) _
              (he ▸ hslot)).false
          cases hw
          refine hne (hF p.owner _ (List.mem_append_right _ ?_)).symm
          rw [settleEntries_of_ne (w := { w with drops := w.drops.eraseIdx d }) hslot hne]
          exact List.mem_cons_self
  | _ => trivial

/-! ### The race -/

/-- No count is below the number of live connections. -/
def LiveCounted (w : World σ) : Prop :=
  ∀ (i : ℕ) (x : Member) (m : TunnelMetrics), w.pool.members[i]? = some x →
    w.lb.metrics[i]? = some m → w.live x.tag ≤ m.activeConnections.toNat

/-- Exact counts cover the live connections. -/
theorem Exact.liveCounted {w : World σ} (h : Exact w) : LiveCounted w := by
  intro i x m hx hm
  have hcount := balanced_iff.mp h.balanced i x m hx hm
  rw [load] at hcount
  omega

/-- Two connections, one to each of two backends; the first one's drop passes its check, the
first backend is removed, and the drop goes on. -/
def raceRun : List (Event Builtin) :=
  Event.connecting 0 ++ Event.connecting 0 ++ [.dropCheck 0, .removeBackend 0, .dropWrite 0 true]

/-- **A drop decrements another backend's count.** The guard was created for backend 0; its
decrement goes to backend 1, whose count is then 0 while one of its connections is live. -/
theorem drop_race :
    ∃ w, run (step Env.plain) (ofSize 2 (.roundRobin ⟨0⟩)) raceRun = .ok w ∧
      Entry.decremented 0 1 ∈ w.log ∧ w.tags = [1] ∧ w.live 1 = 1 ∧
      w.lb.metrics.map TunnelMetrics.activeConnections = [0] := by
  have hends : ends (step Env.plain) (fun w => decide (Entry.decremented 0 1 ∈ w.log ∧
      w.tags = [1] ∧ w.live 1 = 1 ∧ w.lb.metrics.map TunnelMetrics.activeConnections = [0]))
      (ofSize 2 (.roundRobin ⟨0⟩)) raceRun = true := by decide
  obtain ⟨w, hrun, hw⟩ := exists_run_of_ends hends
  exact ⟨w, hrun, of_decide_eq_true hw⟩

/-- **Decrements go astray exactly by writes after a shift.** In a run whose decrements all
find their guard's slot where it was, every decrement reaches the guard's own backend and
no count falls below its live connections, in every state; in any other run some decrement
has gone to another backend. -/
theorem faithful_iff_safeWrite [BalanceStrategy σ] {env : Env} {w₀ w : World σ}
    {es : List (Event σ)} (h₀ : w₀.Initial) (hb : Throughout (step env) Bounded w₀ es)
    (hrun : run (step env) w₀ es = .ok w) :
    (Along (step env) SafeWrite w₀ es ↔ Faithful w) ∧
      (Along (step env) SafeWrite w₀ es →
        Throughout (step env) (fun w => Faithful w ∧ LiveCounted w) w₀ es) := by
  refine ⟨⟨fun hsafe => (run_exact h₀ hsafe hb hrun).faithful, fun hF => ?_⟩, fun hsafe => ?_⟩
  · have hdisp : Displaced w₀ := by
      obtain ⟨lb, seeds, -, -, rfl⟩ := h₀
      exact fun p hp => absurd hp List.not_mem_nil
    refine (along_of_last (I := fun w => Sound w ∧ Displaced w) ?_ ?_
      ⟨initial_sound h₀, hdisp⟩ hb.before hrun hF).2
    · rintro w e w' ⟨hsound, hdisp⟩ hbound hs
      exact ⟨step_sound hsound hs, step_displaced hsound hbound.2 hdisp hs⟩
    · rintro w e w' ⟨hsound, hdisp⟩ hbound hs hF'
      obtain ⟨es, hlog, -⟩ := step_log hs
      exact ⟨fun o t hmem => hF' o t (hlog ▸ List.mem_append_left es hmem),
        safeWrite_of_faithful hsound hbound.2 hdisp hs hF'⟩
  · have hexact : Throughout (step env) Exact w₀ es :=
      throughout_invariant (fun _ _ w' h hC hs => step_exact h hC.1 (hC.2 w' hs) hs)
        (initial_exact h₀) (hsafe.and hb.along)
    exact hexact.imp fun w h => ⟨h.faithful, h.liveCounted⟩

/-- The same drop, with the other backend removed in between: its slot does not shift. -/
def calmRaceRun : List (Event Builtin) :=
  Event.connecting 0 ++ Event.connecting 0 ++ [.dropCheck 0, .removeBackend 1, .dropWrite 0 true]

theorem faithful_calmRaceRun :
    ∃ w, run (step Env.plain) (ofSize 2 (.roundRobin ⟨0⟩)) calmRaceRun = .ok w ∧
      w.tags = [0] ∧ Faithful w := by
  have hends : ends (step Env.plain) (fun w => decide (w.tags = [0]))
      (ofSize 2 (.roundRobin ⟨0⟩)) calmRaceRun = true := by decide
  have hb : Throughout (step Env.plain) Bounded (ofSize 2 (.roundRobin ⟨0⟩)) calmRaceRun := by
    decide
  have hsafe : Along (step Env.plain) SafeWrite (ofSize 2 (.roundRobin ⟨0⟩)) calmRaceRun := by
    decide
  obtain ⟨w, hrun, hw⟩ := exists_run_of_ends hends
  exact ⟨w, hrun, of_decide_eq_true hw,
    (faithful_iff_safeWrite (initial_ofSize Nat.two_pos _) hb hrun).1.mp hsafe⟩

end World

end RotaLb
