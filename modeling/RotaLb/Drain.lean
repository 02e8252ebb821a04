import RotaLb.Accounting
import RotaLb.IndexSafety

/-!
# Draining a Backend

`drain_backend` marks a backend by `recent_errors = u32::MAX`. No strategy is told: the mark
keeps dials away only where a strategy happens to read `recent_errors` (`HealthWeighted`) or
happens to look elsewhere, and the first successful dial clears it.

`Builtin.Spares` says for each of the nine strategies, from its state and the view, which
index the next pick does not return. Along every run whose dials all spare the drained
backends, and in which no other backend collects `u32::MAX` errors, the marks are exactly
the drained backends.

## Main results

* `Builtin.pick_ne_iff`: **a pick does not return an index exactly when the strategy spares
  it**.
* `drain_kept_of_healthyPeer`: the one strategy that reads the mark, `HealthWeighted`, honours
  it in every run in which each dial finds a backend in reasonable health.
* `drain_kept_iff`: **drained backends stay marked and get no dial** in exactly the runs
  whose dials spare them.
* `drained_backend_dialed`: round robin dials a drained backend, and the mark is gone.
-/

namespace RotaLb

open Rust StepSystem Scan

/-! ### Which index a strategy spares -/

namespace Builtin

/-- The strategy's own arithmetic on this view does not overflow. -/
def Fits (s : Builtin) (view : PoolView) : Prop :=
  match s with
  | weightedRoundRobin s => (s.refresh view).Fits
  | _ => True

/-- The next pick on this view does not return index `i`. -/
def Spares (env : Env) (draw : ℕ) (s : Builtin) (view : PoolView) (i : ℕ) : Prop :=
  match s with
  | roundRobin s => s.next % view.len ≠ i
  | random => env.genRange draw view.len ≠ i
  | lowestRtt => Beaten (keyAt TunnelMetrics.rttOrMax view.metrics) view.len i
  | leastConnections => Beaten (keyAt TunnelMetrics.loadKey view.metrics) view.len i
  | hashByAddr => (env.finish view.dialAddr).toNat % view.len ≠ i
  | weightedRoundRobin s => Beaten (s.refresh view).ratio view.len i
  | failover s => s.primary % view.len ≠ i
  | healthWeighted => Beaten (keyAt HealthWeighted.wrappedScore view.metrics) view.len i
  | sticky ⟨some p⟩ => min p (view.len - 1) ≠ i
  | sticky ⟨none⟩ => Beaten (keyAt TunnelMetrics.rttOrMax view.metrics) view.len i

instance (s : Builtin) (view : PoolView) : Decidable (s.Fits view) :=
  match s with
  | weightedRoundRobin s => inferInstanceAs (Decidable (∀ p ∈ (s.refresh view).picks, _))
  | roundRobin _ | random | lowestRtt | leastConnections | hashByAddr | failover _
  | healthWeighted | sticky _ => .isTrue trivial

instance (env : Env) (draw : ℕ) (s : Builtin) (view : PoolView) (i : ℕ) :
    Decidable (s.Spares env draw view i) :=
  match s with
  | roundRobin _ | random | hashByAddr | failover _ | sticky ⟨some _⟩ =>
    inferInstanceAs (Decidable (_ ≠ _))
  | lowestRtt | leastConnections | weightedRoundRobin _ | healthWeighted | sticky ⟨none⟩ =>
    inferInstanceAs (Decidable (Beaten _ _ _))

/-- **A pick does not return an index exactly when the strategy spares it.** -/
theorem pick_ne_iff {env : Env} {draw : ℕ} {s s' : Builtin} {view : PoolView} {idx i : ℕ}
    (hgood : Good s) (hfits : s.Fits view)
    (hpick : BalanceStrategy.pick env draw s view = .ok (idx, s')) (hi : i < view.len) :
    idx ≠ i ↔ s.Spares env draw view i := by
  have hv : 0 < view.len := Nat.zero_lt_of_lt hi
  cases s with
  | roundRobin s =>
      obtain ⟨⟨j, t⟩, hj, hr⟩ := bind_eq_ok.mp hpick
      cases hr
      cases (s.pick_ok hv).symm.trans hj
      exact Iff.rfl
  | random =>
      obtain ⟨j, hj, hr⟩ := bind_eq_ok.mp hpick
      cases hr
      rw [Random.pick, if_neg (Nat.ne_of_gt hv)] at hj
      cases hj
      exact Iff.rfl
  | lowestRtt =>
      cases hpick
      exact (LowestRtt.pick_isFirstMin hv).ne_iff hi
  | leastConnections =>
      obtain ⟨j, hj, hr⟩ := bind_eq_ok.mp hpick
      cases hr
      obtain ⟨b, hb, hmin⟩ := LeastConnections.pick_isFirstMin hv
      cases hb.symm.trans hj
      exact hmin.ne_iff hi
  | hashByAddr =>
      obtain ⟨j, hj, hr⟩ := bind_eq_ok.mp hpick
      cases hr
      have hhash : tryFrom 64 (env.finish view.dialAddr).toNat =
          some (env.finish view.dialAddr).toNat := if_pos (env.finish view.dialAddr).toNat_lt
      rw [HashByAddr.pick, rem_of_pos hv, hhash] at hj
      cases hj
      exact Iff.rfl
  | weightedRoundRobin s =>
      obtain ⟨⟨j, t⟩, hj, hr⟩ := bind_eq_ok.mp hpick
      cases hr
      obtain ⟨b, t', hb, hleast, -, -⟩ := WeightedRoundRobin.pick_ok (s := s) hgood hv
      cases hb.symm.trans hj
      have hlen := WeightedRoundRobin.refresh_length (s := s) hgood view
      obtain ⟨b', hb', hmin⟩ := WeightedRoundRobin.leastServed_isFirstMin
        (WeightedRoundRobin.refresh_wellSized hgood view) hfits (by omega)
      cases hb'.symm.trans hleast
      rw [hlen] at hmin
      exact hmin.ne_iff hi
  | failover s =>
      obtain ⟨⟨j, t⟩, hj, hr⟩ := bind_eq_ok.mp hpick
      cases hr
      cases (s.pick_ok hv).symm.trans hj
      exact Iff.rfl
  | healthWeighted =>
      obtain ⟨j, hj, hr⟩ := bind_eq_ok.mp hpick
      cases hr
      obtain ⟨b, hb, hmin⟩ := HealthWeighted.pick_isFirstMin hv
      cases hb.symm.trans hj
      exact hmin.ne_iff hi
  | sticky s =>
      obtain ⟨pinned⟩ := s
      cases pinned with
      | some p =>
          cases hpick
          exact Iff.rfl
      | none =>
          cases hpick
          exact (LowestRtt.pick_isFirstMin hv).ne_iff hi

end Builtin

/-- The mark alone makes a score of `u32::MAX` error penalties: only an RTT of hundreds of
thousands of years could wrap the sum. -/
theorem HealthWeighted.le_wrappedScore {m : TunnelMetrics} (hdrain : m.recentErrors = u32Max)
    (hrtt : ∀ r ∈ m.rtt, r.asMicros < 2 ^ 63) :
    u32Max.toNat * ERROR_PENALTY_US ≤ wrappedScore m := by
  have hterm : rttTerm m < 2 ^ 63 := by
    unfold rttTerm
    cases hr : m.rtt with
    | none => decide
    | some r =>
        have hlt : r.asMicros < 2 ^ 63 := hrtt r hr
        have hfits : tryFrom 64 r.asMicros = some r.asMicros := if_pos (by omega)
        simp only [hfits, Option.getD_some]
        exact hlt
  have hload : m.activeConnections.toNat < 2 ^ 32 := m.activeConnections.toNat_lt
  have hmax : u32Max.toNat = 2 ^ 32 - 1 := rfl
  rw [wrappedScore, hdrain, hmax]
  unfold ERROR_PENALTY_US LOAD_PENALTY_US
  rw [Nat.mod_eq_of_lt (by omega)]
  omega

/-- **`HealthWeighted` spares a drained backend** while another one scores below the penalty
of the mark. -/
theorem HealthWeighted.spares_draining {env : Env} {draw : ℕ} {view : PoolView} {i j : ℕ}
    {m m' : TunnelMetrics} (hi : view.metrics[i]? = some m) (hj : view.metrics[j]? = some m')
    (hdrain : m.recentErrors = u32Max) (hrtt : ∀ r ∈ m.rtt, r.asMicros < 2 ^ 63)
    (hscore : wrappedScore m' < u32Max.toNat * ERROR_PENALTY_US) :
    Builtin.healthWeighted.Spares env draw view i := by
  refine ⟨j, (List.getElem?_eq_some_iff.mp hj).1, .inl ?_⟩
  rw [keyAt_of_getElem? hi, keyAt_of_getElem? hj]
  exact hscore.trans_le (le_wrappedScore hdrain hrtt)

/-! ### The marks -/

/-- The mark `is_draining` looks for. -/
def TunnelMetrics.draining (m : TunnelMetrics) : Bool := m.recentErrors = u32Max

/-- The drain state of the backend with tag `t` after the entry. -/
def Entry.mark (t : ℕ) (b : Bool) : Entry → Bool
  | .drained u => b || u = t
  | .undrained u => b && u ≠ t
  | _ => b

/-- Entries that are not about draining. -/
theorem foldl_mark {es : List Entry} (hes : ∀ e ∈ es, ∀ t b, e.mark t b = b) (t : ℕ) (b : Bool) :
    es.foldl (Entry.mark t) b = b := by
  induction es with
  | nil => rfl
  | cons e es ih =>
      rw [List.foldl_cons, hes e List.mem_cons_self]
      exact ih fun e' he' => hes e' (List.mem_cons_of_mem _ he')

/-- The dial waits to record a failure. -/
def Phase.failing : Phase → Bool
  | .errorMetrics _ => true
  | _ => false

variable {σ : Type}

namespace World

/-- The backend with tag `t` was drained and not undrained since. -/
def drained (w : World σ) (t : ℕ) : Bool := w.log.foldl (Entry.mark t) false

/-- `is_draining` tells exactly the drained backends, and no dial in progress is on one. -/
def DrainKept (w : World σ) : Prop :=
  (∀ i t : ℕ, w.tags[i]? = some t → w.lb.isDraining i = w.drained t) ∧
    ∀ d ∈ w.dials, w.drained d.owner = false

/-- The column of marks is the column of drain states, no dial in progress is on a drained
backend, and tags not given out yet are not drained. -/
structure Marked (w : World σ) : Prop where
  marks : w.lb.metrics.map TunnelMetrics.draining = w.tags.map w.drained
  dials : ∀ d ∈ w.dials, w.drained d.owner = false
  fresh : ∀ t, w.fresh ≤ t → w.drained t = false

/-- The marks are what `is_draining` reads. -/
theorem Marked.drainKept {w : World σ} (h : Marked w) : DrainKept w := by
  refine ⟨fun i t ht => ?_, h.dials⟩
  have hcol : (w.lb.metrics.map TunnelMetrics.draining)[i]? = some (w.drained t) := by
    rw [h.marks, List.getElem?_map, ht, Option.map_some]
  rw [List.getElem?_map] at hcol
  obtain ⟨m, hm, hdrain⟩ := Option.map_eq_some_iff.mp hcol
  rw [LoadBalancer.isDraining, hm, Option.any_some]
  exact hdrain

/-- The drain state after new entries. -/
theorem drained_append {w w' : World σ} {es : List Entry} (hlog : w'.log = w.log ++ es) (t : ℕ) :
    w'.drained t = es.foldl (Entry.mark t) (w.drained t) := by
  rw [drained, hlog, List.foldl_append, drained]

/-- New entries that are not about draining. -/
theorem drained_eq {w w' : World σ} {es : List Entry} (hlog : w'.log = w.log ++ es)
    (hes : ∀ e ∈ es, ∀ t b, e.mark t b = b) (t : ℕ) : w'.drained t = w.drained t := by
  rw [drained_append hlog, foldl_mark hes]

/-- The second half of a drop records nothing about draining. -/
theorem settleEntries_mark {w : World σ} {g : ActiveConnectionGuard} {owner : ℕ} :
    ∀ e ∈ w.settleEntries g owner, ∀ t b, e.mark t b = b := by
  intro e he t b
  rcases mem_settleEntries he with ⟨t', -, rfl⟩ | ⟨t', -, -, rfl⟩ | ⟨-, rfl⟩
  all_goals rfl

/-- An event that leaves slots, marks and drain states alone. -/
theorem Marked.congr {w w' : World σ} (h : Marked w) (htags : w'.tags = w.tags)
    (hmarks : w'.lb.metrics.map TunnelMetrics.draining =
      w.lb.metrics.map TunnelMetrics.draining)
    (hdials : ∀ d ∈ w'.dials, d.owner ∈ w.dials.map Dial.owner) (hfresh : w'.fresh = w.fresh)
    (hdrained : ∀ t, w'.drained t = w.drained t) : Marked w' := by
  refine ⟨?_, fun d hd => ?_, fun t ht => ?_⟩
  · rw [hmarks, h.marks, htags]
    exact List.map_congr_left fun t _ => (hdrained t).symm
  · obtain ⟨d₀, hd₀, he⟩ := List.mem_map.mp (hdials d hd)
    rw [hdrained, ← he]
    exact h.dials d₀ hd₀
  · rw [hdrained]
    exact h.fresh t (hfresh ▸ ht)

/-- The owners of the dials left after one of them is gone. -/
theorem owner_mem_of_eraseIdx {ds : List Dial} {k : ℕ} :
    ∀ d ∈ ds.eraseIdx k, d.owner ∈ ds.map Dial.owner := fun _ hd =>
  List.mem_map_of_mem (List.mem_of_mem_eraseIdx hd)

/-- The owners of the dials after one of them has moved on. -/
theorem owner_mem_of_set {ds : List Dial} {k : ℕ} {d : Dial} {phase : Phase}
    (hd : ds[k]? = some d) :
    ∀ x ∈ ds.set k { d with phase }, x.owner ∈ ds.map Dial.owner := by
  intro x hx
  rcases List.mem_or_eq_of_mem_set hx with hx | rfl
  · exact List.mem_map_of_mem hx
  · exact List.mem_map.mpr ⟨d, List.mem_of_getElem? hd, rfl⟩

/-- The metrics of a dial's backend are not marked. -/
theorem Marked.not_draining {w : World σ} (h : Marked w) (hp : Placed w) {d : Dial}
    (hd : d ∈ w.dials) {m : TunnelMetrics} (hm : w.lb.metrics[d.index]? = some m) :
    m.draining = false := by
  have hkept := h.drainKept.1 d.index d.owner (hp.dials d hd).1
  rw [LoadBalancer.isDraining, hm, Option.any_some, h.dials d hd] at hkept
  exact hkept

/-- A failed dial about to be recorded does not fill up the error count of its backend. -/
def Unsaturated (w : World σ) : Event σ → Prop
  | .lockMetrics k => ∀ d ∈ w.dials[k]?, d.phase.failing = true →
      ∀ m ∈ w.lb.metrics[d.index]?, m.recentErrors ≠ u32Max - 1
  | _ => True

/-- Below saturation an error does not mark a backend. -/
theorem draining_recordError {m : TunnelMetrics} (h : m.draining = false)
    (hm : m.recentErrors ≠ u32Max - 1) : (LoadBalancer.recordError m).draining = false := by
  have hne : ¬ m.recentErrors = 0xFFFFFFFF := of_decide_eq_false h
  have hinc : saturatingInc m.recentErrors = m.recentErrors + 1 := if_neg hne
  exact decide_eq_false fun he => hm (UInt32.eq_sub_iff_add_eq.mpr (hinc.symm.trans he))

/-- A backend enters without a mark. -/
theorem Marked.added {w : World σ} (h : Marked w) (hd : w.dials = []) (id : Option String)
    (ptr : ℕ) : Marked (w.added id (w.lb.pushBackend id ⟨w.fresh, ptr⟩)) := by
  have hdrained : ∀ t, (w.added id (w.lb.pushBackend id ⟨w.fresh, ptr⟩)).drained t =
      w.drained t := drained_eq rfl (by simp [Entry.mark])
  refine ⟨?_, fun d hmem => ?_, fun t ht => ?_⟩
  · have hmarks : (w.added id (w.lb.pushBackend id ⟨w.fresh, ptr⟩)).lb.metrics.map
        TunnelMetrics.draining = w.lb.metrics.map TunnelMetrics.draining ++ [false] :=
      List.map_append
    rw [hmarks, h.marks, tags_added, List.map_append, List.map_singleton, hdrained,
      h.fresh w.fresh le_rfl]
    exact congrArg (· ++ [false]) (List.map_congr_left fun t _ => (hdrained t).symm)
  · exact absurd (hd ▸ hmem : d ∈ []) List.not_mem_nil
  · rw [hdrained]
    exact h.fresh t ((Nat.le_succ _).trans ht)

/-- A backend leaves with its mark. -/
theorem Marked.afterLeave {w : World σ} (h : Marked w) (hd : w.dials = []) (index : ℕ)
    (b : Backend) : Marked (w.afterLeave index b) := by
  have hdrained : ∀ t, (w.afterLeave index b).drained t = w.drained t :=
    drained_eq rfl (by simp [Entry.mark])
  refine ⟨?_, fun d hmem => ?_, fun t ht => (hdrained t).trans (h.fresh t ht)⟩
  · have hmarks : (w.afterLeave index b).lb.metrics.map TunnelMetrics.draining =
        (w.lb.metrics.map TunnelMetrics.draining).eraseIdx index :=
      (List.eraseIdx_map _ _ _).symm
    rw [hmarks, h.marks, tags_afterLeave, List.eraseIdx_map]
    exact List.map_congr_left fun t _ => (hdrained t).symm
  · exact absurd (hd ▸ hmem : d ∈ []) List.not_mem_nil

/-- A new pool has no marks. -/
theorem Marked.afterReplace {w : World σ} (h : Marked w) (hd : w.dials = []) (ptrs : List ℕ)
    (strategy : Option σ) : Marked (w.afterReplace ptrs strategy) := by
  have hdrained : ∀ t, (w.afterReplace ptrs strategy).drained t = w.drained t := by
    refine drained_eq (List.append_assoc _ _ _) fun e he => ?_
    rcases List.mem_append.mp he with he | he <;>
      · obtain ⟨b, -, rfl⟩ := List.mem_map.mp he
        exact fun _ _ => rfl
  refine ⟨?_, fun d hmem => ?_, fun t ht => ?_⟩
  · have hmarks : (w.afterReplace ptrs strategy).lb.metrics.map TunnelMetrics.draining =
        List.replicate ptrs.length false := by
      rw [← length_tagFrom w.fresh ptrs]
      exact List.map_replicate
    rw [hmarks, tags_afterReplace]
    refine (List.eq_replicate_iff.mpr ⟨by simp, fun b hb => ?_⟩).symm
    obtain ⟨t, ht, rfl⟩ := List.mem_map.mp hb
    rw [hdrained]
    exact h.fresh t (List.mem_range'_1.mp ht).1
  · exact absurd (hd ▸ hmem : d ∈ []) List.not_mem_nil
  · rw [hdrained]
    exact h.fresh t ((Nat.le_add_right _ _).trans ht)

/-- Setting or clearing one mark together with its drain state. -/
theorem Marked.mark {w w' : World σ} (h : Marked w) (hsync : Sync w) (hd : w'.dials = [])
    {index t : ℕ} (ht : w.tags[index]? = some t) {b : Bool} {f : TunnelMetrics → TunnelMetrics}
    (hf : ∀ m, (f m).draining = b) (hmetrics : w'.lb.metrics = w.lb.metrics.modify index f)
    (htags : w'.tags = w.tags) (hfresh : w'.fresh = w.fresh) (hself : w'.drained t = b)
    (hother : ∀ u, u ≠ t → w'.drained u = w.drained u) : Marked w' := by
  refine ⟨?_, fun d hmem => ?_, fun u hu => ?_⟩
  · rw [hmetrics, htags, Keyed.map_eq_modify_map hsync.nodup ht hother, hself, ← h.marks]
    exact Keyed.map_modify_of_comm hf
  · exact absurd (hd ▸ hmem : d ∈ []) List.not_mem_nil
  · have hlt : t < w.fresh := hsync.fresh t (List.mem_of_getElem? ht)
    rw [hfresh] at hu
    rw [hother u (by omega)]
    exact h.fresh u hu

/-- **Every event keeps the marks**, if a dial it starts is not routed to a drained backend
and a failure it records does not fill up an error count. -/
theorem step_marked [BalanceStrategy σ] {env : Env} {w w' : World σ} {e : Event σ}
    (hsound : Sound w) (h : Marked w) (hunsat : Unsaturated w e)
    (hroute : ∀ addr timeout policy draw idx strategy b, e = .start addr timeout policy draw →
      validateDialAddr addr = .ok () →
      BalanceStrategy.pick env draw w.lb.strategy ⟨addr, w.lb.metrics⟩ = .ok (idx, strategy) →
      w.lb.backends[idx]? = some b → w.drained b.tag = false)
    (hs : w.step env e = .ok w') : Marked w' := by
  have hself : ∀ d ∈ w.dials, d.owner ∈ w.dials.map Dial.owner := fun d hd =>
    List.mem_map_of_mem hd
  cases step_effect hs with
  | idle => exact h
  | @routed addr timeout policy draw idx b strategy d haddr hpick hb _ howner =>
      have hdrained : ∀ t, (w.afterRoute idx strategy d).drained t = w.drained t :=
        drained_eq rfl (by simp [Entry.mark])
      refine ⟨?_, fun x hx => ?_, fun t ht => (hdrained t).trans (h.fresh t ht)⟩
      · have hmarks : (w.afterRoute idx strategy d).lb.metrics.map TunnelMetrics.draining =
            w.lb.metrics.map TunnelMetrics.draining := Keyed.map_modify_of_absorb fun _ => rfl
        refine hmarks.trans (h.marks.trans ?_)
        exact List.map_congr_left fun t _ => (hdrained t).symm
      · rw [hdrained]
        rcases List.mem_append.mp hx with hx | hx
        · exact h.dials x hx
        · rw [List.mem_singleton.mp hx, howner]
          exact hroute _ _ _ _ _ _ _ rfl haddr hpick hb
  | moved _ hd => exact h.congr rfl rfl (owner_mem_of_set hd) rfl fun _ => rfl
  | @succeeded k d hd =>
      refine h.congr rfl (Keyed.map_modify_of_getElem? fun m hm => ?_) (owner_mem_of_set hd) rfl
        fun _ => rfl
      rw [h.not_draining hsound.placed (List.mem_of_getElem? hd) hm]
      rfl
  | @errored k d err hd hphase =>
      refine h.congr rfl (Keyed.map_modify_of_getElem? fun m hm => ?_) (owner_mem_of_set hd) rfl
        fun _ => rfl
      have hclear := h.not_draining hsound.placed (List.mem_of_getElem? hd) hm
      rw [draining_recordError hclear (hunsat d hd (by rw [hphase]; rfl) m hm), hclear]
  | connected | returned => exact h.congr rfl rfl owner_mem_of_eraseIdx rfl fun _ => rfl
  | cancelled =>
      refine h.congr rfl rfl owner_mem_of_eraseIdx rfl (drained_eq rfl ?_)
      split <;> simp [Entry.mark]
  | dropped | written =>
      refine h.congr rfl (Keyed.map_modify_of_absorb fun _ => rfl) hself rfl (drained_eq rfl ?_)
      exact settleEntries_mark
  | stale | contended => exact h.congr rfl rfl hself rfl (drained_eq rfl (by simp [Entry.mark]))
  | checked | strategySet => exact h.congr rfl rfl hself rfl fun _ => rfl
  | entered hd => exact h.added hd _ _
  | left hd => exact h.afterLeave hd _ _
  | replaced hd => exact h.afterReplace hd _ _
  | @drained index b hd hb =>
      refine h.mark hsound.sync hd (tags_getElem? hb) (b := true) (fun m => ?_) rfl rfl rfl ?_ ?_
      · exact decide_eq_true rfl
      · rw [drained_append (w := w) rfl]
        simp [Entry.mark]
      · intro u hu
        rw [drained_append (w := w) rfl]
        simp [Entry.mark, hu.symm]
  | @undrained index hd hdrain =>
      obtain ⟨m, hm, -⟩ := (Option.any_eq_true _ _).mp hdrain
      have hlt : index < w.tags.length := by
        rw [tags, List.length_map, hsound.sync.length.1, ← hsound.sync.length.2.2]
        exact (List.getElem?_eq_some_iff.mp hm).1
      have ht := List.getElem?_eq_getElem hlt
      refine h.mark hsound.sync hd ht (b := false) (fun m => ?_) rfl rfl rfl ?_ ?_
      · exact decide_eq_false (show ¬ (0 : UInt32) = u32Max by decide)
      · rw [drained_append (w := w) rfl, ht]
        simp [Entry.mark]
      · intro u hu
        rw [drained_append (w := w) rfl, ht]
        simp [Entry.mark, hu.symm]

/-! ### Whole runs -/

/-- No backend of a new balancer was drained. -/
theorem initial_drained {w : World σ} (h : w.Initial) (t : ℕ) : w.drained t = false := by
  obtain ⟨lb, seeds, -, -, rfl⟩ := h
  refine foldl_mark (fun e he => ?_) t false
  obtain ⟨x, -, rfl⟩ := List.mem_map.mp he
  exact fun _ _ => rfl

/-- A new balancer that reads its marks right was seeded with none. -/
theorem initial_not_draining {w : World σ} (h : w.Initial) (hkept : DrainKept w) :
    ∀ m ∈ w.lb.metrics, m.draining = false := by
  intro m hm
  obtain ⟨i, hi⟩ := List.mem_iff_getElem?.mp hm
  obtain ⟨hb, -, hlen⟩ := (initial_sync h).length
  have hlt : i < w.tags.length := by
    rw [tags, List.length_map, hb, ← hlen]
    exact (List.getElem?_eq_some_iff.mp hi).1
  have hread := hkept.1 i _ (List.getElem?_eq_getElem hlt)
  rw [initial_drained h, LoadBalancer.isDraining, hi, Option.any_some] at hread
  exact hread

/-- A new balancer, none of whose seeds is the mark. -/
theorem initial_marked {w : World σ} (h : w.Initial)
    (hseeds : ∀ m ∈ w.lb.metrics, m.draining = false) : Marked w := by
  obtain ⟨hb, -, hm⟩ := (initial_sync h).length
  refine ⟨?_, fun d _ => initial_drained h _, fun t _ => initial_drained h t⟩
  have hleft : w.lb.metrics.map TunnelMetrics.draining =
      List.replicate w.lb.metrics.length false := by
    refine List.eq_replicate_iff.mpr ⟨List.length_map _, fun b hb => ?_⟩
    obtain ⟨m, hm, rfl⟩ := List.mem_map.mp hb
    exact hseeds m hm
  have hright : w.tags.map w.drained = List.replicate w.lb.metrics.length false := by
    refine List.eq_replicate_iff.mpr ⟨?_, fun b hb => ?_⟩
    · rw [List.length_map, tags, List.length_map, hb, hm]
    · obtain ⟨t, -, rfl⟩ := List.mem_map.mp hb
      exact initial_drained h t
  rw [hleft, hright]

/-- The arithmetic of the strategy does not overflow in the dial the event starts. -/
def FitsPick (w : World Builtin) : Event Builtin → Prop
  | .start addr _ _ _ => w.lb.strategy.Fits ⟨addr, w.lb.metrics⟩
  | _ => True

/-- On the dial that the event starts the strategy spares every drained backend, and a
failure that it records does not fill up an error count. -/
def SparesDrained (env : Env) (w : World Builtin) : Event Builtin → Prop
  | .start addr _ _ draw => validateDialAddr addr = .ok () →
      ∀ i < w.tags.length, w.drained (w.tags.getD i 0) = true →
        w.lb.strategy.Spares env draw ⟨addr, w.lb.metrics⟩ i
  | e => w.Unsaturated e

instance (w : World σ) : DecidablePred (Unsaturated w)
  | .lockMetrics k => inferInstanceAs (Decidable (∀ d ∈ w.dials[k]?, _ → _))
  | .dropWrite .. | .start .. | .attempted .. | .woke _ | .cancel _ | .lockStrategy _
  | .drop _ | .dropCheck _ | .addBackend _ | .addBackendWithId .. | .removeBackend _
  | .removeBackendById _ | .removeBackendByPtr _ | .replaceBackends .. | .drainBackend _
  | .undrainBackend _ | .setStrategy _ => .isTrue trivial

instance (w : World Builtin) : DecidablePred (FitsPick w)
  | .start addr _ _ _ => inferInstanceAs (Decidable (w.lb.strategy.Fits ⟨addr, w.lb.metrics⟩))
  | .lockMetrics _ | .dropWrite .. | .attempted .. | .woke _ | .cancel _ | .lockStrategy _
  | .drop _ | .dropCheck _ | .addBackend _ | .addBackendWithId .. | .removeBackend _
  | .removeBackendById _ | .removeBackendByPtr _ | .replaceBackends .. | .drainBackend _
  | .undrainBackend _ | .setStrategy _ => .isTrue trivial

instance (env : Env) (w : World Builtin) : DecidablePred (SparesDrained env w) := fun e => by
  cases e <;> unfold SparesDrained <;> infer_instance

/-- What the steps of a run with drained backends keep. -/
structure Draining (w : World Builtin) : Prop where
  sound : Sound w
  steady : Steady w
  marked : Marked w

/-- The tag in a slot, read with a default. -/
theorem tags_getD {w : World σ} {i t : ℕ} (ht : w.tags[i]? = some t) : w.tags.getD i 0 = t := by
  rw [List.getD_eq_getElem?_getD, ht, Option.getD_some]

/-- **A dial that spares the drained backends keeps the marks.** -/
theorem step_draining {env : Env} {w w' : World Builtin} {e : Event Builtin} (h : Draining w)
    (hlawful : e.Lawful) (hfits : FitsPick w e) (hspares : SparesDrained env w e)
    (hs : w.step env e = .ok w') : Draining w' := by
  refine ⟨step_sound h.sound hs, step_steady h.steady hlawful hs, ?_⟩
  refine step_marked h.sound h.marked ?_ ?_ hs
  · cases e <;> trivial
  · rintro addr timeout policy draw idx strategy b rfl haddr hpick hb
    have ht := tags_getElem? hb
    have hlt : idx < w.tags.length := (List.getElem?_eq_some_iff.mp ht).1
    have hview : idx < PoolView.len ⟨addr, w.lb.metrics⟩ := by
      rw [PoolView.len, h.steady.metrics]
      exact (List.getElem?_eq_some_iff.mp hb).1
    by_contra hdrained
    have hmark : w.drained (w.tags.getD idx 0) = true := by
      rw [tags_getD ht]
      exact Bool.eq_true_of_not_eq_false hdrained
    have hspared := hspares haddr idx hlt hmark
    exact (Builtin.pick_ne_iff h.steady.strategy hfits hpick hview).mpr hspared rfl

/-- A step that does not spare a drained backend, or fills up an error count, breaks the
marks at once. -/
theorem sparesDrained_of_kept {env : Env} {w : World Builtin} {e : Event Builtin} (h : Draining w)
    (hfits : FitsPick w e) (hkept : ∀ w', w.step env e = .ok w' → DrainKept w') :
    SparesDrained env w e := by
  cases e with
  | start addr timeout policy draw =>
      intro haddr i hi hdrained
      have hlen : w.tags.length = w.lb.metrics.length := by
        rw [tags, List.length_map, h.steady.metrics]
      have hview : i < PoolView.len ⟨addr, w.lb.metrics⟩ := hi.trans_eq hlen
      obtain ⟨idx, s', hpick, hlt, -⟩ :=
        LawfulStrategy.pick_ok env draw h.steady.strategy (Nat.zero_lt_of_lt hview)
      refine (Builtin.pick_ne_iff h.steady.strategy hfits hpick hview).mp ?_
      rintro rfl
      obtain ⟨b, d, hb, howner, hs⟩ :=
        step_start_picked h.steady haddr hpick hlt timeout policy
      have hsame : (w.afterRoute idx s' d).drained b.tag = w.drained b.tag :=
        drained_eq rfl (by simp [Entry.mark]) _
      have hclear := (hkept _ hs).2 d (List.mem_append_right _ List.mem_cons_self)
      rw [howner, hsame, ← tags_getD (tags_getElem? hb), hdrained] at hclear
      cases hclear
  | lockMetrics k =>
      intro d hd hfail m hm hfull
      have hmem : d ∈ w.dials := List.mem_of_getElem? hd
      obtain ⟨err, hphase⟩ : ∃ err, d.phase = .errorMetrics err := by
        cases hp : d.phase <;> simp_all [Phase.failing]
      have hs : w.step env (.lockMetrics k) = .ok ({ w with
          lb := w.lb.handleDialError d.index }.goto k d (.errorStrategy err)) := by
        simp only [step, onItem, Option.mem_def.mp hd, lockMetrics, hphase]
      have hread := (hkept _ hs).1 d.index d.owner (h.sound.placed.dials d hmem).1
      have hmark : (w.lb.handleDialError d.index).isDraining d.index = true := by
        rw [LoadBalancer.isDraining, LoadBalancer.handleDialError, List.getElem?_modify,
          Option.mem_def.mp hm]
        simp [LoadBalancer.recordError, saturatingInc, hfull, u32Max]
      have hclear : w.drained d.owner = false := h.marked.dials d hmem
      exact Bool.false_ne_true (hclear.symm.trans (hread.symm.trans hmark))
  | _ => trivial

/-- The dial is balanced by `HealthWeighted`, no RTT is out of all proportion, and some backend
scores below the penalty of the mark. -/
def HealthyPeer (w : World Builtin) : Event Builtin → Prop
  | .start .. => w.lb.strategy = .healthWeighted ∧
      (∀ m ∈ w.lb.metrics, ∀ r ∈ m.rtt, r.asMicros < 2 ^ 63) ∧
      ∃ m ∈ w.lb.metrics, HealthWeighted.wrappedScore m < u32Max.toNat * ERROR_PENALTY_US
  | e => w.Unsaturated e

/-- Such a dial fits and spares the drained backends. -/
theorem HealthyPeer.spares {env : Env} {w : World Builtin} {e : Event Builtin}
    (he : HealthyPeer w e) (h : Draining w) : FitsPick w e ∧ SparesDrained env w e := by
  cases e with
  | start addr timeout policy draw =>
      obtain ⟨hstrategy, hrtt, m', hm', hscore⟩ := he
      refine ⟨by rw [FitsPick, hstrategy]; trivial, fun _ i hi hdrained => ?_⟩
      have hlen : i < w.lb.metrics.length := by
        rw [h.steady.metrics]
        rwa [tags, List.length_map] at hi
      have hm := List.getElem?_eq_getElem hlen
      have hread := h.marked.drainKept.1 i _ (List.getElem?_eq_getElem hi)
      rw [← tags_getD (List.getElem?_eq_getElem hi), hdrained, LoadBalancer.isDraining, hm,
        Option.any_some] at hread
      obtain ⟨j, hj⟩ := List.mem_iff_getElem?.mp hm'
      rw [hstrategy]
      exact HealthWeighted.spares_draining hm hj (of_decide_eq_true hread)
        (hrtt _ (List.mem_of_getElem? hm)) hscore
  | _ => exact ⟨trivial, he⟩

/-- **`HealthWeighted` keeps drained backends drained**, in every run in which each dial finds
a backend that scores below the penalty of the mark. -/
theorem drain_kept_of_healthyPeer {env : Env} {w₀ : World Builtin} {es : List (Event Builtin)}
    (h₀ : w₀.Initial) (hgood : w₀.lb.strategy.Good)
    (hseeds : ∀ m ∈ w₀.lb.metrics, m.draining = false) (hes : ∀ e ∈ es, e.Lawful)
    (hpeer : Along (step env) HealthyPeer w₀ es) : Throughout (step env) DrainKept w₀ es := by
  have hinv : Throughout (step env) Draining w₀ es :=
    throughout_invariant (fun _ _ _ h hC hs => by
      obtain ⟨hfits, hspares⟩ := hC.2.spares h
      exact step_draining h hC.1 hfits hspares hs)
      ⟨initial_sound h₀, initial_steady h₀ hgood, initial_marked h₀ hseeds⟩
      ((along_of_forall hes).and hpeer)
  exact hinv.imp fun w h => h.marked.drainKept

/-- **Draining, exactly.** In every run within the arithmetic of the strategy: `is_draining`
tells exactly the drained backends and no dial is routed to one, in every state, if and only
if no backend was seeded with the mark, the strategy spares the drained backends on every
dial, and no failure fills up an error count. -/
theorem drain_kept_iff {env : Env} {w₀ : World Builtin} {es : List (Event Builtin)}
    (h₀ : w₀.Initial) (hgood : w₀.lb.strategy.Good) (hes : ∀ e ∈ es, e.Lawful)
    (hfits : Along (step env) FitsPick w₀ es) :
    ((∀ m ∈ w₀.lb.metrics, m.draining = false) ∧ Along (step env) (SparesDrained env) w₀ es) ↔
      Throughout (step env) DrainKept w₀ es := by
  have hstart : (∀ m ∈ w₀.lb.metrics, m.draining = false) → Draining w₀ := fun hseeds =>
    ⟨initial_sound h₀, initial_steady h₀ hgood, initial_marked h₀ hseeds⟩
  have hD := (along_of_forall hes).and hfits
  constructor
  · rintro ⟨hseeds, hspares⟩
    have hinv : Throughout (step env) Draining w₀ es :=
      throughout_invariant (fun _ _ _ h hC hs => step_draining h hC.1.1 hC.1.2 hC.2 hs)
        (hstart hseeds) (hD.and hspares)
    exact hinv.imp fun w h => h.marked.drainKept
  · intro hkept
    have hseeds := initial_not_draining h₀ hkept.head
    refine ⟨hseeds, along_of_throughout
      (fun _ _ _ h hC hs => step_draining h hC.1.1 hC.1.2 hC.2 hs)
      (fun _ _ h hDe hkept => sparesDrained_of_kept h hDe.2 hkept) (hstart hseeds) hD hkept⟩

/-- The first of two backends is drained; a dial connects and a dial fails. -/
def drainRun : List (Event Builtin) := .drainBackend 0 :: (Event.connecting 0 ++ Event.failing 0)

/-- Under `HealthWeighted` both dials go to the backend that is left. -/
theorem drain_kept_drainRun :
    Along (step Env.plain) (SparesDrained Env.plain) (ofSize 2 .healthWeighted) drainRun ∧
      Throughout (step Env.plain) DrainKept (ofSize 2 .healthWeighted) drainRun := by
  have hspares :
      Along (step Env.plain) (SparesDrained Env.plain) (ofSize 2 .healthWeighted) drainRun := by
    decide
  have hlawful : ∀ e ∈ drainRun, e.Lawful := by
    simp [drainRun, Event.connecting, Event.failing, Event.Lawful]
  have hinit : (ofSize 2 Builtin.healthWeighted).Initial := initial_ofSize (by decide) _
  exact ⟨hspares, (drain_kept_iff hinit trivial hlawful (by decide)).mp ⟨by decide, hspares⟩⟩

/-- **A drained backend is dialed.** Under `RoundRobin` the first dial after `drain_backend(0)`
goes to backend 0, though backend 1 is not draining; it succeeds, and `is_draining(0)` is
false with no `undrain_backend`. -/
theorem drained_backend_dialed :
    ∃ w, run (step Env.plain) (ofSize 2 (Builtin.roundRobin ⟨0⟩))
        (.drainBackend 0 :: Event.connecting 0) = .ok w ∧
      w.drained 0 = true ∧ w.drained 1 = false ∧ w.tags = [0, 1] ∧
      w.lb.metrics.map TunnelMetrics.totalDials = [1, 0] ∧ w.lb.isDraining 0 = false := by
  have hends : ends (step Env.plain)
      (fun w => decide (w.drained 0 = true ∧ w.drained 1 = false ∧ w.tags = [0, 1] ∧
        w.lb.metrics.map TunnelMetrics.totalDials = [1, 0] ∧ w.lb.isDraining 0 = false))
      (ofSize 2 (Builtin.roundRobin ⟨0⟩)) (.drainBackend 0 :: Event.connecting 0) = true := by
    decide
  obtain ⟨w, hrun, hw⟩ := exists_run_of_ends hends
  exact ⟨w, hrun, of_decide_eq_true hw⟩

end World

end RotaLb
