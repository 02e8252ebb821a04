import RotaLb.Accounting
import RotaLb.IndexSafety

/-!
# Strategies that Remember an Index

`Sticky` and `Failover` remember one index and reduce it to the pool of the day: `Sticky`
clamps it, `Failover` takes the remainder. Neither is told when backends leave.

* `Failover::report_error` compares the reported index with the stored primary, not with
  its remainder. In a pool that has shrunk to the primary or below, the index a dial was
  routed to never matches, and the failing backend is dialed again.
* A removal below the remembered slot shifts another backend into it.

Both effects are stated exactly: from the stored index, the pool sizes, and the number of
removals below the backend.

## Main results

* `Failover.moves_on_iff`: **after an error the next dial goes to the next slot exactly when
  the stored primary is inside the pool**; `Failover.primary_lt`: it is, as long as the pool
  does not shrink.
* `failover_stuck`: a balancer that dials a failing backend again.
* `same_backend_iff`: **two dials in a row go to the same backend exactly when the slot
  remembered has moved by the number of removals below it**.
* `pin_slips`: a `Sticky` and a `Failover` balancer that change backend with no failure.
-/

namespace RotaLb

open Rust StepSystem

variable {σ : Type}

/-! ### Moving off a failing backend -/

/-- A pick from a pool of `n` backends. -/
def Call.PicksFrom (n : ℕ) : Call → Prop
  | .pick _ view => view.len = n
  | _ => False

namespace Failover

/-- A pick takes the pool size over and keeps the primary. -/
theorem builtin_pick (env : Env) (draw : ℕ) (s : Failover) (view : PoolView) (hv : 0 < view.len) :
    BalanceStrategy.pick env draw (Builtin.failover s) view =
      .ok (s.primary % view.len, .failover ⟨s.primary, view.len⟩) :=
  bind_eq_ok.mpr ⟨_, s.pick_ok hv, rfl⟩

/-- The primary is a slot of the pool last seen. -/
def InRange : Builtin → Prop
  | .failover s => s.primary < max 1 s.len
  | _ => False

end Failover

/-- The call does not pick from a smaller pool than the pick before it. -/
def Call.Grows : Builtin → Call → Prop
  | .failover s, .pick _ view => 0 < view.len ∧ s.len ≤ view.len
  | _, _ => True

namespace Failover

/-- A call in a pool that does not shrink keeps the primary in range. -/
theorem step_inRange {env : Env} {s s' : Builtin} {c : Call} (h : InRange s) (hc : c.Grows s)
    (hs : Call.step env s c = .ok s') : InRange s' := by
  cases s with
  | failover s =>
      have hlt : s.primary < max 1 s.len := h
      cases c with
      | pick draw view =>
          obtain ⟨hpos, hle⟩ : 0 < view.len ∧ s.len ≤ view.len := hc
          rw [Call.step, builtin_pick env draw s view hpos] at hs
          cases hs
          exact hlt.trans_le (max_le_max_left 1 hle)
      | reportError idx =>
          obtain ⟨t, ht, hr⟩ := bind_eq_ok.mp hs
          cases hr
          by_cases hidx : idx = s.primary
          · subst hidx
            by_cases hlen : 0 < s.len
            · cases (reportError_primary hlen).symm.trans ht
              exact (Nat.mod_lt _ hlen).trans_le (le_max_right _ _)
            · obtain ⟨primary, len⟩ := s
              obtain rfl : len = 0 := Nat.eq_zero_of_not_pos hlen
              obtain rfl : primary = 0 := Nat.lt_one_iff.mp hlt
              cases ht
              exact Nat.one_pos
          · cases (reportError_of_ne hidx).symm.trans ht
            exact hlt
      | reportSuccess idx =>
          cases hs
          exact hlt
  | _ => exact h.elim

/-- **In a pool that never shrinks the primary stays inside it**, over every history of picks
and reports from the constructors. -/
theorem primary_lt {env : Env} {s₀ s : Failover} {calls : List Call}
    (h₀ : Builtin.Constructed (.failover s₀))
    (hgrows : Along (Call.step env) (fun s c => c.Grows s) (Builtin.failover s₀) calls)
    (hrun : run (Call.step env) (Builtin.failover s₀) calls = .ok (.failover s)) :
    s.primary < max 1 s.len := by
  have hinit : InRange (.failover s₀) := by
    cases h₀ with
    | failover => exact Nat.one_pos
    | failoverWith n => exact Nat.one_pos.trans_le (le_max_left 1 n)
  exact run_invariant_along (I := InRange) (fun _ _ _ => step_inRange) hinit hgrows hrun

/-- Picks from pools of one size leave the strategy as the first of them did. -/
theorem run_picks {env : Env} {p n : ℕ} (hn : 0 < n) {picks : List Call}
    (hpicks : ∀ c ∈ picks, c.PicksFrom n) :
    run (Call.step env) (Builtin.failover ⟨p, n⟩) picks = .ok (.failover ⟨p, n⟩) := by
  induction picks with
  | nil => rfl
  | cons c picks ih =>
      refine run_cons_eq_ok.mpr ⟨_, ?_, ih fun c' hc' => hpicks c' (List.mem_cons_of_mem _ hc')⟩
      have hc : c.PicksFrom n := hpicks c List.mem_cons_self
      cases c with
      | pick draw view =>
          obtain rfl : view.len = n := hc
          rw [Call.step, builtin_pick env draw _ view hn]
          rfl
      | reportError idx => exact hc.elim
      | reportSuccess idx => exact hc.elim

/-- The state after a report about the index the last pick returned. -/
def afterReport (s : Failover) (n : ℕ) : Failover :=
  if s.primary < n then ⟨(s.primary + 1) % n, n⟩ else ⟨s.primary, n⟩

/-- The slot the next pick reduces that state to. -/
theorem afterReport_mod (s : Failover) (n : ℕ) :
    (s.afterReport n).primary % n =
      if s.primary < n then (s.primary % n + 1) % n else s.primary % n := by
  unfold afterReport
  split
  · rename_i hlt
    rw [Nat.mod_mod, Nat.mod_eq_of_lt hlt]
  · rfl

/-- The next slot of two or more is another one. -/
theorem succ_mod_ne {n i : ℕ} (hn : 2 ≤ n) (hi : i < n) : (i + 1) % n ≠ i := by
  rcases Nat.lt_or_ge (i + 1) n with h | h
  · rw [Nat.mod_eq_of_lt h]
    omega
  · rw [show i + 1 = n by omega, Nat.mod_self]
    omega

/-- A report about the index the last pick returned reaches the primary only if that is
inside the pool. -/
theorem reportError_picked {s : Failover} {n : ℕ} (hn : 0 < n) (hsize : n ≤ 2 ^ 64) :
    BalanceStrategy.reportError (Builtin.failover ⟨s.primary, n⟩) (s.primary % n) =
      .ok (.failover (s.afterReport n)) := by
  refine bind_eq_ok.mpr ⟨s.afterReport n, ?_, rfl⟩
  unfold afterReport
  by_cases hlt : s.primary < n
  · have hwrap : (s.primary + 1) % 2 ^ 64 % n = (s.primary + 1) % n := by
      rcases Nat.lt_or_ge (s.primary + 1) (2 ^ 64) with h | h
      · rw [Nat.mod_eq_of_lt h]
      · obtain rfl : n = 2 ^ 64 := by omega
        exact Nat.mod_mod _ _
    have hmove := reportError_primary (s := ⟨s.primary, n⟩) hn
    rw [if_pos hlt, Nat.mod_eq_of_lt hlt, ← hwrap]
    exact hmove
  · rw [if_neg hlt]
    have hmod := Nat.mod_lt s.primary hn
    exact reportError_of_ne (s := ⟨s.primary, n⟩) (show s.primary % n ≠ s.primary by omega)

/-- **Moving off a failing backend, exactly.** From every state: a pick from `n ≥ 2` backends
returns some `i`; after any further picks from as many backends and a report of an error at
`i`, the next pick returns `(i + 1) mod n` if and only if the stored primary was below `n`,
and `i` again otherwise. -/
theorem moves_on_iff (env : Env) (s : Failover) {n : ℕ} (hn : 2 ≤ n) (hsize : n ≤ 2 ^ 64)
    (draw draw' : ℕ) {view view' : PoolView} (hview : view.len = n) (hview' : view'.len = n)
    {picks : List Call} (hpicks : ∀ c ∈ picks, c.PicksFrom n) :
    ∃ i j s₁ s₂ s₃, BalanceStrategy.pick env draw (Builtin.failover s) view = .ok (i, s₁) ∧
      run (Call.step env) s₁ (picks ++ [.reportError i]) = .ok s₂ ∧
      BalanceStrategy.pick env draw' s₂ view' = .ok (j, s₃) ∧
      (j = (i + 1) % n ↔ s.primary < n) ∧ (n ≤ s.primary → j = i) := by
  have hpos : 0 < n := by omega
  have hreport : Call.step env (Builtin.failover ⟨s.primary, n⟩) (.reportError (s.primary % n)) =
      .ok (.failover (s.afterReport n)) := reportError_picked hpos hsize
  have hfirst := builtin_pick env draw s view (by omega)
  have hnext := builtin_pick env draw' (s.afterReport n) view' (by omega)
  rw [hview] at hfirst
  rw [hview', afterReport_mod] at hnext
  refine ⟨_, _, _, _, _, hfirst,
    run_append.mpr ⟨_, run_picks hpos hpicks, run_cons_eq_ok.mpr ⟨_, hreport, rfl⟩⟩, hnext, ?_⟩
  have hlt : s.primary % n < n := Nat.mod_lt _ hpos
  split
  · exact ⟨by simp [*], fun hge => by omega⟩
  · exact ⟨iff_of_false (succ_mod_ne hn hlt).symm ‹_›, fun _ => rfl⟩

/-- With the primary at the last of three slots, the next one is the first. -/
theorem moves_on_from_last :
    ∃ i j s₁ s₂ s₃, BalanceStrategy.pick Env.plain 0 (Builtin.failover ⟨2, 3⟩) (.blank 3) =
        .ok (i, s₁) ∧
      run (Call.step Env.plain) s₁ ([.pick 0 (.blank 3)] ++ [.reportError i]) = .ok s₂ ∧
      BalanceStrategy.pick Env.plain 0 s₂ (.blank 3) = .ok (j, s₃) ∧
      (j = (i + 1) % 3 ↔ 2 < 3) ∧ (3 ≤ 2 → j = i) := by
  refine moves_on_iff Env.plain ⟨2, 3⟩ (by decide) (by decide) 0 0 rfl rfl fun c hc => ?_
  rw [List.mem_singleton.mp hc]
  rfl

end Failover

namespace World

/-- Three backends under `Failover`: two dials fail, the last backend leaves, and two more
dials fail. -/
def stuckRun : List (Event Builtin) :=
  Event.failing 0 ++ Event.failing 0 ++ [.removeBackend 2] ++ Event.failing 0 ++ Event.failing 0

/-- **A failing backend is dialed again.** The primary is 2 when the pool shrinks to two
backends; both further dials go to backend 0 and fail there, the report of the first one
notwithstanding. -/
theorem failover_stuck :
    ∃ w, run (step Env.plain) (ofSize 3 (.failover .new)) stuckRun = .ok w ∧ w.tags = [0, 1] ∧
      w.log.drop 6 = [.routed 0, .routed 0] ∧
      w.lb.metrics.map TunnelMetrics.totalErrors = [3, 1] := by
  have hends : ends (step Env.plain) (fun w => decide (w.tags = [0, 1] ∧
      w.log.drop 6 = [.routed 0, .routed 0] ∧
      w.lb.metrics.map TunnelMetrics.totalErrors = [3, 1]))
      (ofSize 3 (.failover .new)) stuckRun = true := by decide
  obtain ⟨w, hrun, hw⟩ := exists_run_of_ends hends
  exact ⟨w, hrun, of_decide_eq_true hw⟩

end World

/-! ### The slot a strategy remembers -/

/-- A strategy that dials the slot it remembers, with the slot this is in a pool of each
size. -/
inductive Builtin.Remembers : Builtin → (ℕ → ℕ) → Prop
  | sticky (p : ℕ) : Remembers (.sticky ⟨some p⟩) fun n => min p (n - 1)
  | failover (s : Failover) : Remembers (.failover s) fun n => s.primary % n

/-- The strategy reacts to error reports. -/
def Builtin.reacts : Builtin → Bool
  | .failover _ => true
  | _ => false

namespace Builtin

variable {s s' : Builtin} {slotIn : ℕ → ℕ} {view : PoolView} {env : Env} {draw idx : ℕ}

/-- Such a strategy picks the slot it remembers. -/
theorem Remembers.pick (h : s.Remembers slotIn) (hv : 0 < view.len)
    (hpick : BalanceStrategy.pick env draw s view = .ok (idx, s')) : idx = slotIn view.len := by
  cases h with
  | sticky p =>
      cases hpick
      rfl
  | failover s =>
      cases (Failover.builtin_pick env draw s view hv).symm.trans hpick
      rfl

/-- The slot remembered after a pick is the slot picked. -/
theorem Remembers.picked (h : s'.Remembers slotIn) (hv : 0 < view.len)
    (hpick : BalanceStrategy.pick env draw s view = .ok (idx, s')) : idx = slotIn view.len := by
  cases s with
  | sticky s =>
      obtain ⟨pinned⟩ := s
      cases pinned with
      | some p =>
          cases hpick
          cases h
          rfl
      | none =>
          have hlt := (LowestRtt.pick_isFirstMin hv).lt
          cases hpick
          cases h
          exact (Nat.min_eq_left (Nat.le_sub_one_of_lt hlt)).symm
  | failover s =>
      cases (Failover.builtin_pick env draw s view hv).symm.trans hpick
      cases h
      rfl
  | lowestRtt =>
      cases hpick
      cases h
  | roundRobin s | random | leastConnections | hashByAddr | weightedRoundRobin s
  | healthWeighted =>
      obtain ⟨_, -, hr⟩ := bind_eq_ok.mp hpick
      cases hr
      cases h

/-- A report that is not about the stored primary of a `Failover` changes no strategy. -/
theorem reportError_same (hne : ∀ f, s = .failover f → idx ≠ f.primary) :
    BalanceStrategy.reportError s idx = .ok s := by
  cases s with
  | failover s => exact bind_eq_ok.mpr ⟨s, Failover.reportError_of_ne (hne s rfl), rfl⟩
  | _ => rfl

end Builtin

namespace World

/-! ### Between two dials -/

/-- What may happen between a dial to backend `b` and the next dial: no other dial is routed,
the strategy and the pool are not replaced, `b` is not removed, and no failed dial to `b` is
reported to a strategy that reacts. -/
def Between (b : ℕ) (w : World Builtin) : Event Builtin → Prop
  | .start addr _ _ _ => validateDialAddr addr ≠ .ok ()
  | .replaceBackends .. | .setStrategy _ => False
  | .lockStrategy k => ∀ d ∈ w.dials[k]?, w.lb.strategy.reacts = true → d.owner = b →
      d.phase.settled = false
  | e => ∀ index ∈ w.removalIndex e, w.tags[index]? ≠ some b

instance (b : ℕ) (w : World Builtin) : DecidablePred (Between b w)
  | .start .. => inferInstanceAs (Decidable (_ ≠ _))
  | .replaceBackends .. | .setStrategy _ => inferInstanceAs (Decidable False)
  | .lockStrategy k => inferInstanceAs (Decidable (∀ d ∈ w.dials[k]?, _ → _ → _))
  | .attempted .. | .woke _ | .lockMetrics _ | .cancel _ | .drop _ | .dropCheck _ | .dropWrite ..
  | .addBackend _ | .addBackendWithId .. | .removeBackend _ | .removeBackendById _
  | .removeBackendByPtr _ | .drainBackend _ | .undrainBackend _ =>
    inferInstanceAs (Decidable (∀ index ∈ w.removalIndex _, w.tags[index]? ≠ some b))

/-- The event removes a backend from a slot below that of `b`. -/
def removesBelow (b : ℕ) (w : World Builtin) (e : Event Builtin) : Bool :=
  (w.removalIndex e).any (· < w.tags.idxOf b)

/-- Since the dial that was routed to `b` in slot `slot` of `size`, `n` backends below it have
left, and the strategy `s` has not changed. A dial still in progress is from before any
reconfiguration. -/
structure Tracked (s : Builtin) (b slot size n : ℕ) (w : World Builtin) : Prop where
  sound : Sound w
  steady : Steady w
  strategy : w.lb.strategy = s
  le : n ≤ slot
  tag : w.tags[slot - n]? = some b
  quiet : w.dials = [] ∨ n = 0 ∧ w.tags.length = size

/-- The slot of a tag. -/
theorem idxOf_tags {w : World σ} (h : Sync w) {i b : ℕ} (hb : w.tags[i]? = some b) :
    w.tags.idxOf b = i := by
  obtain ⟨hi, rfl⟩ := List.getElem?_eq_some_iff.mp hb
  exact h.nodup.idxOf_getElem i hi

section Tracked

variable {s : Builtin} {b slot size n : ℕ} {w w' : World Builtin} {e : Event Builtin}

/-- Events that move no slot. -/
theorem Tracked.congr (h : Tracked s b slot size n w) (hsound : Sound w') (hsteady : Steady w')
    (hstrategy : w'.lb.strategy = w.lb.strategy) (htags : w'.tags = w.tags)
    (hdials : w.dials = [] → w'.dials = []) (he : w.removesBelow b e = false) :
    Tracked s b slot size (n + if w.removesBelow b e then 1 else 0) w' := by
  rw [he]
  refine ⟨hsound, hsteady, hstrategy.trans h.strategy, h.le, htags ▸ h.tag, ?_⟩
  exact h.quiet.imp hdials fun hq => ⟨hq.1, htags ▸ hq.2⟩

/-- An event that finds no backend to remove removes none below `b`. -/
theorem Tracked.removesBelow_eq_false (h : Tracked s b slot size n w)
    (hnone : ∀ index, w.removalIndex e = some index → w.lb.backends.length ≤ index) :
    w.removesBelow b e = false := by
  cases hr : w.removalIndex e with
  | none => rw [removesBelow, hr, Option.any_none]
  | some index =>
      have hlt : slot - n < w.lb.backends.length := by
        rw [← List.length_map (f := Backend.tag)]
        exact (List.getElem?_eq_some_iff.mp h.tag).1
      have hout := hnone index hr
      rw [removesBelow, hr, Option.any_some, idxOf_tags h.sound.sync h.tag]
      exact decide_eq_false (by omega)

/-- A removal of another backend: from below `b` it shifts `b` down. -/
theorem Tracked.afterLeave (h : Tracked s b slot size n w) {index : ℕ} {x : Backend}
    (hsound : Sound (w.afterLeave index x)) (hsteady : Steady (w.afterLeave index x))
    (hd : w.dials = []) (he : w.removalIndex e = some index) (hne : w.tags[index]? ≠ some b) :
    Tracked s b slot size (n + if w.removesBelow b e then 1 else 0) (w.afterLeave index x) := by
  have hslot : w.tags.idxOf b = slot - n := idxOf_tags h.sound.sync h.tag
  have hle := h.le
  have hindex : index ≠ slot - n := fun heq => hne (heq ▸ h.tag)
  have hbelow : w.removesBelow b e = decide (index < slot - n) := by
    rw [removesBelow, he, Option.any_some, hslot]
  rw [hbelow]
  by_cases hlt : index < slot - n
  · rw [decide_eq_true hlt, if_pos rfl]
    refine ⟨hsound, hsteady, h.strategy, by omega, ?_, .inl hd⟩
    rw [tags_afterLeave, List.getElem?_eraseIdx, if_neg (by omega), ← h.tag]
    congr 1
    omega
  · rw [decide_eq_false hlt, if_neg Bool.false_ne_true]
    refine ⟨hsound, hsteady, h.strategy, hle, ?_, .inl hd⟩
    rw [tags_afterLeave, List.getElem?_eraseIdx, if_pos (by omega)]
    exact h.tag

/-- A report between the dials is not about the stored primary, unless it is about `b`. -/
theorem Tracked.ne_primary {slotIn : ℕ → ℕ} (hs : s.Remembers slotIn)
    (h : Tracked s b (slotIn size) size n w) {d : Dial} (hd : d ∈ w.dials) (hb : d.owner ≠ b)
    {f : Failover} (hf : w.lb.strategy = .failover f) : d.index ≠ f.primary := by
  rintro hidx
  obtain rfl : s = .failover f := h.strategy.symm.trans hf
  cases hs
  have hplace : w.tags[d.index]? = some d.owner := (h.sound.placed.dials d hd).1
  rcases h.quiet with hnil | ⟨rfl, hsize⟩
  · exact absurd (hnil ▸ hd) List.not_mem_nil
  · have hlt : d.index < size := hsize ▸ (List.getElem?_eq_some_iff.mp hplace).1
    have htag : w.tags[f.primary % size]? = some b := h.tag
    rw [← hidx, Nat.mod_eq_of_lt hlt] at htag
    exact hb (Option.some.inj (hplace.symm.trans htag))

/-- **One event between the dials** keeps track of `b`. -/
theorem step_tracked {env : Env} {slotIn : ℕ → ℕ} (hs : s.Remembers slotIn)
    (h : Tracked s b (slotIn size) size n w) (hbetween : w.Between b e)
    (hstep : w.step env e = .ok w') :
    Tracked s b (slotIn size) size (n + if w.removesBelow b e then 1 else 0) w' := by
  have hsound : Sound w' := step_sound h.sound hstep
  have hsteady : Steady w' := step_steady h.steady (by cases e <;> trivial) hstep
  have hkeep : ∀ {k : ℕ} {d : Dial}, w.dials[k]? = some d → w.dials = [] → w'.dials = [] := by
    intro k d hd hnil
    simp [hnil] at hd
  cases step_effect hstep with
  | idle _ hnone =>
      exact h.congr hsound hsteady rfl rfl (fun hd => hd) (h.removesBelow_eq_false hnone)
  | routed haddr => exact absurd haddr hbetween
  | moved he hd =>
      refine h.congr hsound hsteady rfl rfl (hkeep hd) ?_
      rcases he with ⟨_, _, _, rfl⟩ | rfl <;> rfl
  | succeeded hd | errored hd => exact h.congr hsound hsteady rfl rfl (hkeep hd) rfl
  | connected hd _ hreport =>
      cases hreport
      exact h.congr hsound hsteady rfl rfl (hkeep hd) rfl
  | @returned k d err strategy hd hphase hreport =>
      refine h.congr hsound hsteady ?_ rfl (hkeep hd) rfl
      have hsame : BalanceStrategy.reportError w.lb.strategy d.index = .ok w.lb.strategy := by
        refine Builtin.reportError_same fun f hf => ?_
        refine h.ne_primary hs (List.mem_of_getElem? hd) (fun hb => ?_) hf
        have hsettled := hbetween d hd (by rw [hf]; rfl) hb
        rw [hphase] at hsettled
        cases hsettled
      exact Except.ok.inj (hreport.symm.trans hsame)
  | cancelled hd => exact h.congr hsound hsteady rfl rfl (hkeep hd) rfl
  | dropped | checked | written | contended =>
      exact h.congr hsound hsteady rfl rfl (fun hd => hd) rfl
  | stale he =>
      refine h.congr hsound hsteady rfl rfl (fun hd => hd) ?_
      rcases he with rfl | rfl <;> rfl
  | @entered e id ptr hd he =>
      have hbelow : w.removesBelow b e = false := by
        rcases he with ⟨rfl, -⟩ | ⟨_, rfl, -⟩ <;> rfl
      rw [hbelow, if_neg Bool.false_ne_true, Nat.add_zero]
      refine ⟨hsound, hsteady, h.strategy, h.le, ?_, .inl hd⟩
      rw [tags_added, List.getElem?_append_left (List.getElem?_eq_some_iff.mp h.tag).1]
      exact h.tag
  | @left e index x hd he =>
      refine h.afterLeave hsound hsteady hd he ?_
      cases e <;> first | exact hbetween index he | cases he
  | replaced | strategySet => exact hbetween.elim
  | drained hd | undrained hd => exact h.congr hsound hsteady rfl rfl (fun _ => hd) rfl

end Tracked

/-! ### Two dials in a row -/

/-- A routed dial names the slot its strategy remembers afterwards. -/
theorem tracked_of_start {env : Env} {w w' : World Builtin} {addr : String}
    {timeout : Option Duration} {policy : Option RetryPolicy} {draw b : ℕ} {slotIn : ℕ → ℕ}
    (hsound : Sound w) (hsteady : Steady w)
    (hdial : w.step env (.start addr timeout policy draw) = .ok w')
    (hrouted : w'.log = w.log ++ [.routed b]) (hs : w'.lb.strategy.Remembers slotIn) :
    Tracked w'.lb.strategy b (slotIn w'.tags.length) w'.tags.length 0 w' := by
  have hsound' : Sound w' := step_sound hsound hdial
  have hsteady' : Steady w' :=
    step_steady (e := .start addr timeout policy draw) hsteady trivial hdial
  refine ⟨hsound', hsteady', rfl, Nat.zero_le _, ?_, .inr ⟨rfl, rfl⟩⟩
  cases step_effect hdial with
  | idle => simp at hrouted
  | @routed _ _ _ _ idx x strategy d haddr hpick hb hm howner =>
      have hlen : w.tags.length = PoolView.len ⟨addr, w.lb.metrics⟩ := by
        rw [tags, List.length_map, ← hsteady.metrics]
        rfl
      have hidx : idx = slotIn w.tags.length := by
        rw [hlen]
        exact hs.picked (Nat.zero_lt_of_lt hm) hpick
      have htag : x.tag = b := by
        have := List.append_cancel_left hrouted
        simpa [howner] using this
      rw [← htag, Nat.sub_zero]
      exact hidx ▸ tags_getElem? hb
  | moved he => rcases he with ⟨_, _, _, he⟩ | he <;> cases he
  | stale he => rcases he with he | he <;> cases he
  | entered _ he => rcases he with ⟨he, -⟩ | ⟨_, he, -⟩ <;> cases he
  | left _ he => cases he

/-- **The same backend, exactly.** After any run from a new balancer, let a dial be routed to
backend `b` by `Sticky` or `Failover`, and let backends come and go, `b` staying and no failed
dial to `b` being reported to `Failover`. Then the next dial is routed to some backend, and
this is `b` if and only if the slot remembered, in the pool as it is then, lies below its slot
at the dial before by the number of removals below `b`. -/
theorem same_backend_iff {env : Env} {w₀ w w₁ w₂ : World Builtin} {es₀ es : List (Event Builtin)}
    {addr addr' : String} {timeout : Option Duration} {policy : Option RetryPolicy} {draw b : ℕ}
    {slotIn : ℕ → ℕ}
    (h₀ : w₀.Initial) (hgood : w₀.lb.strategy.Good) (hes₀ : ∀ e ∈ es₀, e.Lawful)
    (hrun₀ : run (step env) w₀ es₀ = .ok w)
    (hdial : w.step env (.start addr timeout policy draw) = .ok w₁)
    (hrouted : w₁.log = w.log ++ [.routed b]) (hs : w₁.lb.strategy.Remembers slotIn)
    (hbetween : Along (step env) (Between b) w₁ es) (hrun : run (step env) w₁ es = .ok w₂)
    (haddr' : validateDialAddr addr' = .ok ()) (timeout' : Option Duration)
    (policy' : Option RetryPolicy) (draw' : ℕ) :
    ∃ w₃ t, w₂.step env (.start addr' timeout' policy' draw') = .ok w₃ ∧
      w₃.log = w₂.log ++ [.routed t] ∧
      (t = b ↔ slotIn w₂.tags.length + count (step env) (removesBelow b) w₁ es =
        slotIn w₁.tags.length) := by
  have hkeep : ∀ (w : World Builtin) (e : Event Builtin) w', Sound w ∧ Steady w → e.Lawful →
      w.step env e = .ok w' → Sound w' ∧ Steady w' := fun _ _ _ h he hstep =>
    ⟨step_sound h.1 hstep, step_steady h.2 he hstep⟩
  obtain ⟨hsound, hsteady⟩ := run_invariant_along hkeep
    ⟨initial_sound h₀, initial_steady h₀ hgood⟩ (along_of_forall hes₀) hrun₀
  have hstart := tracked_of_start hsound hsteady hdial hrouted hs
  have htracked : Tracked w₁.lb.strategy b (slotIn w₁.tags.length) w₁.tags.length
      (0 + count (step env) (removesBelow b) w₁ es) w₂ :=
    run_count (fun _ _ _ _ h hC hstep => step_tracked hs h hC hstep) hstart hbetween hrun
  rw [Nat.zero_add] at htracked
  have hlen : w₂.tags.length = PoolView.len ⟨addr', w₂.lb.metrics⟩ := by
    rw [tags, List.length_map, ← htracked.steady.metrics]
    rfl
  have hslot := (List.getElem?_eq_some_iff.mp htracked.tag).1
  have hpos : 0 < PoolView.len ⟨addr', w₂.lb.metrics⟩ := by omega
  obtain ⟨idx, strategy, hpick, hlt, -⟩ :=
    LawfulStrategy.pick_ok env draw' htracked.steady.strategy hpos
  obtain ⟨x, d, hx, howner, hnext⟩ :=
    step_start_picked htracked.steady haddr' hpick hlt timeout' policy'
  refine ⟨_, x.tag, hnext, howner ▸ rfl, ?_⟩
  have hidx : idx = slotIn w₂.tags.length := by
    rw [hlen]
    exact Builtin.Remembers.pick (htracked.strategy ▸ hs) hpos hpick
  have hle := htracked.le
  have htag : w₂.tags[idx]? = some x.tag := tags_getElem? hx
  constructor
  · rintro rfl
    have := Keyed.eq_of_getElem?_eq htracked.sound.sync.nodup htag htracked.tag
    omega
  · intro heq
    rw [show idx = slotIn w₁.tags.length - count (step env) (removesBelow b) w₁ es by omega] at htag
    exact Option.some.inj (htag.symm.trans htracked.tag)

/-- Three backends probed at 30, 10 and 20 ms. -/
def probed : List TunnelMetrics :=
  [30, 10, 20].map fun ms => { rtt := some (Duration.fromMillis ms) }

/-- The rest of a dial that connects, the entry of a backend, and the exit of the last of the
first three. -/
def pinnedRun : List (Event Builtin) :=
  (Event.connecting 0).tail ++ [.addBackend 7, .removeBackend 2]

/-- `Sticky` stays with the second of three backends while the third leaves and a fourth
joins. -/
theorem same_backend_pinnedRun :
    ∃ w₁ w₂ w₃, (ofSeeds probed (.sticky .new)).step Env.plain (.start "a:1" none none 0) = .ok w₁ ∧
      run (step Env.plain) w₁ pinnedRun = .ok w₂ ∧
      w₂.step Env.plain (.start "b:2" none none 0) = .ok w₃ ∧ w₃.log = w₂.log ++ [.routed 1] := by
  have hends : ends (step Env.plain) (fun w₁ =>
      decide (w₁.log = (ofSeeds probed (Builtin.sticky .new)).log ++ [.routed 1] ∧
        w₁.lb.strategy = .sticky ⟨some 1⟩ ∧ Along (step Env.plain) (Between 1) w₁ pinnedRun ∧
        w₁.tags.length = 3 ∧ count (step Env.plain) (removesBelow 1) w₁ pinnedRun = 0) &&
      ends (step Env.plain) (fun w₂ => w₂.tags.length = 3) w₁ pinnedRun)
      (ofSeeds probed (.sticky .new)) [.start "a:1" none none 0] = true := by decide
  obtain ⟨w₁, hdial, hw₁⟩ := exists_run_of_ends hends
  obtain ⟨hdec, hends₂⟩ := (Bool.and_eq_true _ _).mp hw₁
  obtain ⟨hrouted, hstrategy, hbetween, hlen₁, hcount⟩ := of_decide_eq_true hdec
  obtain ⟨w₂, hrun, hlen₂⟩ := exists_run_of_ends hends₂
  obtain ⟨_, hdial, hnil⟩ := run_cons_eq_ok.mp hdial
  cases hnil
  have hinit : (ofSeeds probed (Builtin.sticky .new)).Initial := initial_ofSeeds (by decide) _
  have haddr : validateDialAddr "b:2" = .ok () := rfl
  obtain ⟨w₃, t, hnext, hlog, hiff⟩ := same_backend_iff hinit trivial (List.forall_mem_nil _)
    (run_nil _) hdial
    hrouted (hstrategy ▸ Builtin.Remembers.sticky 1) hbetween hrun haddr none none 0
  have ht : t = 1 := by
    rw [hiff, hcount, hlen₁, of_decide_eq_true hlen₂]
    rfl
  exact ⟨w₁, w₂, w₃, hdial, hrun, hnext, ht ▸ hlog⟩

/-- A dial connects, the first backend is removed, and another dial connects. -/
def slippedRun : List (Event Builtin) :=
  Event.connecting 0 ++ [.removeBackend 0] ++ Event.connecting 0

/-- **The pin slips.** A `Sticky` balancer pinned to the second of three backends, and a
`Failover` balancer that moved to it, dial the third one after the first was removed: each of
the two has one dial, and no dial to either failed. -/
theorem pin_slips :
    (∃ w, run (step Env.plain) (ofSeeds probed (.sticky .new)) slippedRun = .ok w ∧
      w.tags = [1, 2] ∧ w.lb.metrics.map TunnelMetrics.totalDials = [1, 1] ∧
      w.lb.metrics.map TunnelMetrics.totalErrors = [0, 0]) ∧
    ∃ w, run (step Env.plain) (ofSize 3 (.failover .new)) (Event.failing 0 ++ slippedRun) =
        .ok w ∧
      w.tags = [1, 2] ∧ w.lb.metrics.map TunnelMetrics.totalDials = [1, 1] ∧
      w.lb.metrics.map TunnelMetrics.totalErrors = [0, 0] := by
  have hsticky : ends (step Env.plain) (fun w => decide (w.tags = [1, 2] ∧
      w.lb.metrics.map TunnelMetrics.totalDials = [1, 1] ∧
      w.lb.metrics.map TunnelMetrics.totalErrors = [0, 0])) (ofSeeds probed (.sticky .new))
      slippedRun = true := by decide
  have hfailover : ends (step Env.plain) (fun w => decide (w.tags = [1, 2] ∧
      w.lb.metrics.map TunnelMetrics.totalDials = [1, 1] ∧
      w.lb.metrics.map TunnelMetrics.totalErrors = [0, 0])) (ofSize 3 (.failover .new))
      (Event.failing 0 ++ slippedRun) = true := by decide
  obtain ⟨w, hrun, hw⟩ := exists_run_of_ends hsticky
  obtain ⟨w', hrun', hw'⟩ := exists_run_of_ends hfailover
  exact ⟨⟨w, hrun, of_decide_eq_true hw⟩, ⟨w', hrun', of_decide_eq_true hw'⟩⟩

end World

end RotaLb
