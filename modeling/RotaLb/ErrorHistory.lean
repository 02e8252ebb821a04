import RotaLb.Load
import RotaLb.Refinement

/-!
# What the Error Counters Remember

`recent_errors` and `total_errors` of a slot are written by every dial that ends there, by
`drain_backend` and by `undrain_backend`, through an index, while slots come, go and shift. This
module reads them back: `notes` says which mark an event leaves and on which backend, and in
every interleaving the two counters of a slot are what the marks of *its own* backend add up to
since it entered, in the order in which they were made.

`streak` is the meaning of `recent_errors` over natural numbers: the failures since the last
success, with a drain standing for `u32::MAX` of them. The counters saturate, so they show it
cut off at their maximum, and the drain mark is nothing but the maximum.

## Main results

* `handleDialError_metrics`: a dial records its end as `record_dial_result` does.
* `health_history`: **the error counters of every slot, in every run**.
* `isDraining_iff_drained`: **what `is_draining` says in terms of the history**.
-/

namespace RotaLb

open Rust StepSystem

variable {σ : Type}

/-! ### Passive health monitoring -/

/-- `record_dial_result`. -/
def recordDialResult (metrics : List TunnelMetrics) (index : ℕ) (success : Bool) :
    List TunnelMetrics :=
  metrics.modify index fun m =>
    if success then { m with recentErrors := 0 }
    else { m with
      recentErrors := saturatingInc m.recentErrors
      totalErrors := saturatingInc64 m.totalErrors }

/-- A dial that succeeded records what `record_dial_result` does. -/
theorem LoadBalancer.handleDialSuccess_metrics (lb : LoadBalancer σ) (idx : ℕ) :
    (lb.handleDialSuccess idx).metrics = recordDialResult lb.metrics idx true := rfl

/-- A dial that failed records what `record_dial_result` does, and gives its connection back. -/
theorem LoadBalancer.handleDialError_metrics (lb : LoadBalancer σ) (idx : ℕ) :
    (lb.handleDialError idx).metrics =
      (recordDialResult lb.metrics idx false).modify idx recordDrop := by
  rw [recordDialResult, List.modify_modify_eq]
  rfl

/-! ### Marks -/

/-- What is recorded about the health of a backend. -/
inductive Mark
  | succeeded
  | failed
  | drained
  | undrained
  deriving DecidableEq

/-- The failures in a row after one more mark. -/
def Mark.streak (n : ℕ) : Mark → ℕ
  | .failed => n + 1
  | .drained => 2 ^ 32 - 1
  | .succeeded | .undrained => 0

/-- The failures in a row after a history, beginning with `n`. -/
def streak (n : ℕ) (marks : List Mark) : ℕ := marks.foldl Mark.streak n

/-- `recent_errors` and `total_errors`. -/
def TunnelMetrics.health (m : TunnelMetrics) : UInt32 × UInt64 := (m.recentErrors, m.totalErrors)

/-- The error counters of a backend after its history: the failures in a row and the number of
failures, each cut off at the maximum of its counter. -/
def healthAfter (seed : TunnelMetrics) (marks : List Mark) : UInt32 × UInt64 :=
  (UInt32.ofNat (min (streak seed.recentErrors.toNat marks) (2 ^ 32 - 1)),
    UInt64.ofNat (min (seed.totalErrors.toNat + marks.count .failed) (2 ^ 64 - 1)))

/-- What a mark does to the counters. -/
def Mark.record (k : Mark) (h : UInt32 × UInt64) : UInt32 × UInt64 :=
  match k with
  | .succeeded | .undrained => (0, h.2)
  | .failed => (saturatingInc h.1, saturatingInc64 h.2)
  | .drained => (u32Max, h.2)

/-- Before any mark the counters are those of the seed. -/
theorem healthAfter_nil (seed : TunnelMetrics) : healthAfter seed [] = seed.health := by
  have h32 := seed.recentErrors.toNat_lt
  have h64 := seed.totalErrors.toNat_lt
  simp only [healthAfter, streak, List.foldl_nil, List.count_nil, Nat.add_zero]
  rw [Nat.min_eq_left (by omega), Nat.min_eq_left (by omega), UInt32.ofNat_toNat,
    UInt64.ofNat_toNat]
  rfl

/-- One more mark is recorded on top of the others. -/
theorem healthAfter_append (seed : TunnelMetrics) (marks : List Mark) (k : Mark) :
    healthAfter seed (marks ++ [k]) = k.record (healthAfter seed marks) := by
  cases k with
  | failed =>
      simp only [healthAfter, streak, List.foldl_append, List.foldl_cons, List.foldl_nil,
        Mark.streak, List.count_append, List.count_singleton_self, ← Nat.add_assoc, Mark.record,
        saturatingInc_ofNat_min, saturatingInc64_ofNat_min]
  | _ =>
      simp [healthAfter, streak, Mark.streak, Mark.record, u32Max]

/-- A history with a drain that no success and no undrain followed. -/
def Drained (marks : List Mark) : Prop :=
  ∃ before after, marks = before ++ .drained :: after ∧ .succeeded ∉ after ∧ .undrained ∉ after

/-- One more mark: a drain begins one, a failure lets it last, the others end it. -/
theorem drained_append_iff {marks : List Mark} {k : Mark} :
    Drained (marks ++ [k]) ↔ k = .drained ∨ k = .failed ∧ Drained marks := by
  constructor
  · rintro ⟨before, after, heq, hs, hu⟩
    rcases List.eq_nil_or_concat after with rfl | ⟨after, k', rfl⟩
    · obtain ⟨-, hk⟩ := List.append_inj' heq rfl
      exact .inl (List.singleton_inj.mp hk)
    · rw [List.concat_eq_append, ← List.cons_append, ← List.append_assoc] at heq
      obtain ⟨rfl, hk⟩ := List.append_inj' heq rfl
      obtain rfl := List.singleton_inj.mp hk
      simp only [List.concat_eq_append, List.mem_append, List.mem_singleton, not_or] at hs hu
      cases k with
      | drained => exact .inl rfl
      | failed => exact .inr ⟨rfl, before, after, rfl, hs.1, hu.1⟩
      | succeeded => exact absurd rfl hs.2
      | undrained => exact absurd rfl hu.2
  · rintro (rfl | ⟨rfl, before, after, rfl, hs, hu⟩)
    · exact ⟨marks, [], rfl, List.not_mem_nil, List.not_mem_nil⟩
    · exact ⟨before, after ++ [.failed], by simp, by simpa using hs, by simpa using hu⟩

/-- One more mark is counted on top of the others. -/
theorem streak_append (n : ℕ) (marks : List Mark) (k : Mark) :
    streak n (marks ++ [k]) = Mark.streak (streak n marks) k := by
  rw [streak, List.foldl_append]
  rfl

/-- The streak of a drained backend is at the maximum; that of another is made of failures. -/
theorem streak_cases (n : ℕ) (marks : List Mark) :
    Drained marks ∧ 2 ^ 32 - 1 ≤ streak n marks ∨
      ¬ Drained marks ∧ streak n marks ≤ n + marks.count .failed := by
  induction marks using List.reverseRecOn with
  | nil =>
      refine .inr ⟨?_, le_rfl⟩
      rintro ⟨before, after, heq, -⟩
      simp at heq
  | append_singleton marks k ih =>
      rw [drained_append_iff, streak_append, List.count_append]
      cases k with
      | drained => exact .inl ⟨.inl rfl, le_rfl⟩
      | succeeded | undrained => exact .inr ⟨by simp, Nat.zero_le _⟩
      | failed =>
          simp only [reduceCtorEq, false_or, true_and, Mark.streak, List.count_singleton_self]
          refine ih.imp (And.imp_right ?_) (And.imp_right ?_)
          all_goals omega

/-- The marks of one backend, in order. -/
def marksOf (t : ℕ) (notes : List (ℕ × Mark)) : List Mark :=
  notes.filterMap fun x => if x.1 = t then some x.2 else none

theorem marksOf_append (t : ℕ) (ns ns' : List (ℕ × Mark)) :
    marksOf t (ns ++ ns') = marksOf t ns ++ marksOf t ns' := List.filterMap_append

theorem marksOf_singleton_self (t : ℕ) (k : Mark) : marksOf t [(t, k)] = [k] := by
  simp [marksOf]

theorem marksOf_singleton_of_ne {t u : ℕ} (h : u ≠ t) (k : Mark) : marksOf t [(u, k)] = [] := by
  simp [marksOf, h]

namespace World

/-- The mark an event leaves, and the backend it is about. -/
def notes (w : World σ) : Event σ → List (ℕ × Mark)
  | .lockMetrics k =>
    match w.dials[k]? with
    | some d =>
      match d.phase with
      | .successMetrics => [(d.owner, .succeeded)]
      | .errorMetrics _ => [(d.owner, .failed)]
      | _ => []
    | none => []
  | .drainBackend index => (w.tags[index]?.map fun t => (t, Mark.drained)).toList
  | .undrainBackend index =>
    if w.lb.isDraining index then (w.tags[index]?.map fun t => (t, Mark.undrained)).toList else []
  | _ => []

/-- The error counters of the slots are what the marks of their backends add up to, and no mark
is about a backend that has not entered yet. -/
structure Recorded (notes : List (ℕ × Mark)) (w : World σ) : Prop where
  column : w.lb.metrics.map TunnelMetrics.health =
    w.pool.members.map fun x => healthAfter x.seed (marksOf x.tag notes)
  known : ∀ x ∈ notes, x.1 < w.fresh

/-- A backend that has not entered yet has no marks. -/
theorem Recorded.marksOf_eq_nil {ns : List (ℕ × Mark)} {w : World σ} (h : Recorded ns w) {t : ℕ}
    (ht : w.fresh ≤ t) : marksOf t ns = [] := by
  refine List.filterMap_eq_nil_iff.mpr fun x hx => ?_
  have := h.known x hx
  exact if_neg (by omega)

/-- The history of a backend that enters begins empty. -/
theorem Recorded.healthAfter_of_fresh {ns : List (ℕ × Mark)} {w : World σ} (h : Recorded ns w)
    {x : Member} (ht : w.fresh ≤ x.tag) :
    healthAfter x.seed (marksOf x.tag ns) = x.seed.health := by
  rw [h.marksOf_eq_nil ht, healthAfter_nil]

/-- An event that leaves the error counters and the pool alone. -/
theorem Recorded.congr {ns : List (ℕ × Mark)} {w w' : World σ} (es : List Entry) (h : Recorded ns w)
    (hcol : w'.lb.metrics.map TunnelMetrics.health = w.lb.metrics.map TunnelMetrics.health)
    (hfresh : w'.fresh = w.fresh) (hlog : w'.log = w.log ++ es)
    (hes : ∀ e ∈ es, e.onPool = false) : Recorded ns w' := by
  rw [← List.append_nil ns]
  refine ⟨?_, ?_⟩
  · rw [hcol, h.column, pool_eq_of_log hlog hes, List.append_nil]
  · rw [List.append_nil, hfresh]
    exact h.known

/-- A mark is recorded in the slot of its backend. -/
theorem Recorded.mark {ns : List (ℕ × Mark)} {w w' : World σ} (es : List Entry) (h : Recorded ns w)
    (hsync : Sync w) {i t : ℕ} {k : Mark} {f : TunnelMetrics → TunnelMetrics}
    (ht : w.tags[i]? = some t) (hf : ∀ m, (f m).health = k.record m.health)
    (hmetrics : w'.lb.metrics = w.lb.metrics.modify i f) (hfresh : w'.fresh = w.fresh)
    (hlog : w'.log = w.log ++ es) (hes : ∀ e ∈ es, e.onPool = false) :
    Recorded (ns ++ [(t, k)]) w' := by
  obtain ⟨x, hx, rfl⟩ := hsync.member ht
  refine ⟨?_, ?_⟩
  · rw [hmetrics, Keyed.map_modify_of_comm hf, h.column, pool_eq_of_log hlog hes]
    refine (Keyed.map_eq_modify_of_key w.pool.nodup hx (fun y hy => ?_) fun y hy => ?_).symm
    · rw [marksOf_append, hy, marksOf_singleton_self, healthAfter_append]
    · rw [marksOf_append, marksOf_singleton_of_ne (Ne.symm hy), List.append_nil]
  · intro y hy
    rw [hfresh]
    rcases List.mem_append.mp hy with hy | hy
    · exact h.known y hy
    · obtain rfl := List.mem_singleton.mp hy
      exact hsync.fresh _ (List.mem_of_getElem? ht)

/-- A dial that is routed records nothing about the health of its backend. -/
theorem Recorded.afterRoute {ns : List (ℕ × Mark)} {w : World σ} (h : Recorded ns w)
    (hsync : Sync w) {idx : ℕ} {b : Backend} (hb : w.lb.backends[idx]? = some b) (strategy : σ)
    {d : Dial} (hd : d.owner = b.tag) : Recorded ns (w.afterRoute idx strategy d) := by
  refine ⟨?_, h.known⟩
  rw [hsync.members_afterRoute hb strategy hd]
  calc (w.lb.metrics.modify idx LoadBalancer.countDial).map TunnelMetrics.health
      = w.lb.metrics.map TunnelMetrics.health := Keyed.map_modify_of_absorb fun _ => rfl
    _ = w.pool.members.map fun x => healthAfter x.seed (marksOf x.tag ns) := h.column
    _ = (w.pool.members.modify idx Member.routeOne).map fun x =>
          healthAfter x.seed (marksOf x.tag ns) :=
        (Keyed.map_modify_of_absorb (f := Member.routeOne) fun _ => rfl).symm

/-- A backend that is added has clean counters and no history. -/
theorem Recorded.added {ns : List (ℕ × Mark)} {w : World σ} (h : Recorded ns w) (hsync : Sync w)
    (id : Option String) (ptr : ℕ) :
    Recorded ns (w.added id (w.lb.pushBackend id ⟨w.fresh, ptr⟩)) := by
  refine ⟨?_, fun x hx => (h.known x hx).trans (Nat.lt_succ_self _)⟩
  rw [hsync.members_added id ptr, List.map_append, ← h.column, List.map_singleton,
    h.healthAfter_of_fresh le_rfl]
  exact List.map_append

/-- A backend that is removed takes its counters along. -/
theorem Recorded.afterLeave {ns : List (ℕ × Mark)} {w : World σ} (h : Recorded ns w)
    (hsync : Sync w) {index : ℕ} {b : Backend} (hb : w.lb.backends[index]? = some b) :
    Recorded ns (w.afterLeave index b) := by
  refine ⟨?_, h.known⟩
  rw [hsync.members_afterLeave hb, ← List.eraseIdx_map, ← h.column]
  exact (List.eraseIdx_map _ _ _).symm

/-- Backends that replace the others have clean counters and no history. -/
theorem Recorded.afterReplace {ns : List (ℕ × Mark)} {w : World σ} (h : Recorded ns w)
    (hsync : Sync w) (ptrs : List ℕ) (strategy : Option σ) :
    Recorded ns (w.afterReplace ptrs strategy) := by
  refine ⟨?_, fun x hx => (h.known x hx).trans_le (Nat.le_add_right _ _)⟩
  have hnew : ∀ b ∈ tagFrom w.fresh ptrs, healthAfter (Member.newcomer default b).seed
      (marksOf (Member.newcomer default b).tag ns) = (default : TunnelMetrics).health := by
    intro b hb
    have hmem : b.tag ∈ List.range' w.fresh ptrs.length :=
      map_tag_tagFrom w.fresh ptrs ▸ List.mem_map_of_mem hb
    exact h.healthAfter_of_fresh (x := Member.newcomer default b) (List.mem_range'_1.mp hmem).1
  rw [hsync.members_afterReplace ptrs strategy, List.map_map]
  refine Eq.trans ?_ (List.map_congr_left hnew).symm
  exact List.map_replicate.trans List.map_const'.symm

/-! ### One event -/

/-- A slot that is draining holds a backend. -/
theorem Sync.tag_of_isDraining {w : World σ} (h : Sync w) {index : ℕ}
    (hdrain : w.lb.isDraining index = true) : ∃ t, w.tags[index]? = some t := by
  obtain ⟨m, hm, -⟩ := (Option.any_eq_true _ _).mp hdrain
  obtain ⟨-, -, hlen⟩ := h.length
  have hlt : index < w.tags.length := by
    rw [h.tags, Pool.tags, List.length_map, ← hlen]
    exact (List.getElem?_eq_some_iff.mp hm).1
  exact ⟨_, List.getElem?_eq_getElem hlt⟩

/-- A reconfiguration that changes nothing leaves no mark. -/
theorem notes_of_idle [BalanceStrategy σ] {env : Env} {w : World σ} {e : Event σ}
    (he : e.onTask = false) (hs : w.step env e = .ok w) : w.notes e = [] := by
  cases e with
  | drainBackend index =>
      obtain ⟨-, hw⟩ := exclusive_eq_ok hs
      have hlog := congrArg World.log (Except.ok.inj hw)
      rw [notes]
      by_cases hlt : w.lb.backends.length ≤ index
      · simp [tags, hlt]
      · simp [marked, LoadBalancer.drainBackend, hlt, tags] at hlog
  | undrainBackend index =>
      obtain ⟨-, hw⟩ := exclusive_eq_ok hs
      have hlog := congrArg World.log (Except.ok.inj hw)
      rw [notes]
      split
      · rename_i hdrain
        simpa [marked, LoadBalancer.undrainBackend, hdrain] using hlog
      · rfl
  | lockMetrics => simp [Event.onTask] at he
  | _ => rfl

/-- An event that leaves no mark. -/
theorem recorded_of_notes_eq_nil {ns : List (ℕ × Mark)} {w w' : World σ} {e : Event σ}
    (hnotes : w.notes e = []) (h : Recorded ns w') : Recorded (ns ++ w.notes e) w' := by
  rwa [hnotes, List.append_nil]

/-- A dial that has ended leaves its mark on its backend. -/
theorem notes_lockMetrics {w : World σ} {k : ℕ} {d : Dial} (hd : w.dials[k]? = some d) :
    w.notes (.lockMetrics k) =
      match d.phase with
      | .successMetrics => [(d.owner, .succeeded)]
      | .errorMetrics _ => [(d.owner, .failed)]
      | _ => [] := by
  rw [notes, hd]

/-- **Every event records its mark**, in the slot of the backend the mark is about. -/
theorem step_recorded [BalanceStrategy σ] {env : Env} {ns : List (ℕ × Mark)} {w w' : World σ}
    {e : Event σ} (hsync : Sync w) (hplaced : Placed w) (h : Recorded ns w)
    (hs : w.step env e = .ok w') : Recorded (ns ++ w.notes e) w' := by
  cases step_effect hs with
  | idle he => exact recorded_of_notes_eq_nil (notes_of_idle he hs) h
  | routed _ _ hb _ howner => exact recorded_of_notes_eq_nil rfl (h.afterRoute hsync hb _ howner)
  | moved he =>
      refine recorded_of_notes_eq_nil ?_ (h.congr [] rfl rfl (by simp [goto]) (by simp))
      rcases he with ⟨_, _, _, rfl⟩ | rfl
      all_goals rfl
  | @succeeded k d hd hphase =>
      have hslot := (hplaced.dials d (List.mem_of_getElem? hd)).1
      rw [notes_lockMetrics hd, hphase]
      exact h.mark [] hsync hslot (fun _ => rfl) rfl rfl (by simp [goto, onMetrics]) (by simp)
  | @errored k d err hd hphase =>
      have hslot := (hplaced.dials d (List.mem_of_getElem? hd)).1
      rw [notes_lockMetrics hd, hphase]
      exact h.mark [] hsync hslot (fun _ => rfl) rfl rfl (by simp [goto, onMetrics]) (by simp)
  | connected | returned | strategySet =>
      exact recorded_of_notes_eq_nil rfl (h.congr [] rfl rfl (by simp [onStrategy]) (by simp))
  | cancelled =>
      refine recorded_of_notes_eq_nil rfl (h.congr _ rfl rfl rfl ?_)
      split <;> simp [Entry.onPool]
  | dropped | written =>
      refine recorded_of_notes_eq_nil rfl (h.congr _ ?_ rfl rfl settleEntries_not_onPool)
      exact Keyed.map_modify_of_absorb fun _ => rfl
  | stale he =>
      refine recorded_of_notes_eq_nil ?_ (h.congr _ rfl rfl rfl (by simp [Entry.onPool]))
      rcases he with rfl | rfl
      all_goals rfl
  | contended =>
      exact recorded_of_notes_eq_nil rfl (h.congr _ rfl rfl rfl (by simp [Entry.onPool]))
  | checked => exact recorded_of_notes_eq_nil rfl (h.congr [] rfl rfl (by simp) (by simp))
  | entered _ he =>
      refine recorded_of_notes_eq_nil ?_ (h.added hsync _ _)
      rcases he with ⟨rfl, -⟩ | ⟨_, rfl, -⟩
      all_goals rfl
  | left _ he hb =>
      refine recorded_of_notes_eq_nil ?_ (h.afterLeave hsync hb)
      cases e with
      | removeBackend | removeBackendById | removeBackendByPtr => rfl
      | _ => cases he
  | replaced => exact recorded_of_notes_eq_nil rfl (h.afterReplace hsync _ _)
  | drained _ hb =>
      rw [notes, tags_getElem? hb]
      exact h.mark _ hsync (tags_getElem? hb) (fun _ => rfl) rfl rfl rfl (by simp [Entry.onPool])
  | @undrained index _ hdrain =>
      obtain ⟨t, ht⟩ := hsync.tag_of_isDraining hdrain
      rw [notes, if_pos hdrain, ht]
      exact h.mark _ hsync ht (fun _ => rfl) rfl rfl rfl (by simp [Entry.onPool])

/-! ### Whole runs -/

/-- A new balancer has no history. -/
theorem initial_recorded {w : World σ} (h : w.Initial) : Recorded [] w := by
  refine ⟨?_, fun x hx => absurd hx List.not_mem_nil⟩
  rw [← h.seeds, List.map_map]
  exact List.map_congr_left fun x _ => (healthAfter_nil x.seed).symm

/-- The metrics in the slot of a member, with its history. -/
theorem Recorded.slot {ns : List (ℕ × Mark)} {w : World σ} (h : Recorded ns w) {i : ℕ} {x : Member}
    (hx : w.pool.members[i]? = some x) :
    ∃ m, w.lb.metrics[i]? = some m ∧ m.health = healthAfter x.seed (marksOf x.tag ns) := by
  have hcol := congrArg (·[i]?) h.column
  simp only [List.getElem?_map, hx, Option.map_some] at hcol
  exact Option.map_eq_some_iff.mp hcol

section Runs

variable [BalanceStrategy σ] {env : Env} {w₀ w : World σ} {es : List (Event σ)}

/-- Every run records the marks of its events. -/
theorem run_recorded (h₀ : w₀.Initial) (hrun : run (step env) w₀ es = .ok w) :
    Recorded (gather (step env) notes w₀ es) w := by
  have hall := run_gather (I := fun ns w => Sync w ∧ Placed w ∧ Recorded ns w)
    (f := notes) ⟨initial_sync h₀, initial_placed h₀, initial_recorded h₀⟩ ?_ hrun
  · exact hall.2.2
  · rintro ns w e w' ⟨hsync, hplaced, hrecorded⟩ hs
    exact ⟨step_sync hsync hs, step_placed hplaced hs, step_recorded hsync hplaced hrecorded hs⟩

/-- **The error counters of every slot, in every run**: `recent_errors` shows the failures in a
row that its own backend was left with, counted on from its seed until the first success, drain or
undrain, and `total_errors` its seeded errors and the failures recorded since it entered, each up
to the maximum of the counter. An undrain of a backend that is not draining does nothing and leaves
no mark. -/
theorem health_history (h₀ : w₀.Initial) (hrun : run (step env) w₀ es = .ok w) {i : ℕ}
    {x : Member} (hx : w.pool.members[i]? = some x) :
    ∃ m, w.lb.metrics[i]? = some m ∧
      m.recentErrors.toNat = min (2 ^ 32 - 1)
        (streak x.seed.recentErrors.toNat (marksOf x.tag (gather (step env) notes w₀ es))) ∧
      m.totalErrors.toNat = min (2 ^ 64 - 1) (x.seed.totalErrors.toNat +
        (marksOf x.tag (gather (step env) notes w₀ es)).count .failed) := by
  obtain ⟨m, hm, hhealth⟩ := (run_recorded h₀ hrun).slot hx
  obtain ⟨hrecent, htotal⟩ := Prod.mk.inj hhealth
  refine ⟨m, hm, ?_, ?_⟩
  · rw [hrecent, UInt32.toNat_ofNat_of_lt' (Nat.lt_of_le_of_lt (Nat.min_le_right _ _) (by decide)),
      Nat.min_comm]
  · rw [htotal, UInt64.toNat_ofNat_of_lt' (Nat.lt_of_le_of_lt (Nat.min_le_right _ _) (by decide)),
      Nat.min_comm]

/-- **What `is_draining` says**, in every run in which the backend's errors stay below `u32::MAX`:
it was drained, and since then no dial to it has succeeded and it was not undrained. -/
theorem isDraining_iff_drained (h₀ : w₀.Initial) (hrun : run (step env) w₀ es = .ok w) {i : ℕ}
    {x : Member} (hx : w.pool.members[i]? = some x)
    (hfew : x.seed.recentErrors.toNat +
      (marksOf x.tag (gather (step env) notes w₀ es)).count .failed < 2 ^ 32 - 1) :
    w.lb.isDraining i = true ↔ Drained (marksOf x.tag (gather (step env) notes w₀ es)) := by
  obtain ⟨m, hm, hhealth⟩ := (run_recorded h₀ hrun).slot hx
  have hmax : w.lb.isDraining i = true ↔ m.recentErrors.toNat = 2 ^ 32 - 1 := by
    rw [LoadBalancer.isDraining, hm, Option.any_some, decide_eq_true_iff, ← UInt32.toNat_inj]
    rfl
  rw [hmax, (Prod.mk.inj hhealth).1,
    UInt32.toNat_ofNat_of_lt' (Nat.lt_of_le_of_lt (Nat.min_le_right _ _) (by decide))]
  rcases streak_cases x.seed.recentErrors.toNat
    (marksOf x.tag (gather (step env) notes w₀ es)) with ⟨hd, hle⟩ | ⟨hd, hle⟩
  · exact iff_of_true (Nat.min_eq_right hle) hd
  · exact iff_of_false (by omega) hd

end Runs

/-- Both backends fail once, the second one is drained in between, and the first one leaves. -/
def failuresAndDrain : List (Event Builtin) :=
  Event.failing 0 ++ [.drainBackend 1] ++ Event.failing 0 ++ [.removeBackend 0]

theorem health_history_failuresAndDrain :
    ∃ w m, run (step Env.plain) (ofSize 2 (.roundRobin ⟨0⟩)) failuresAndDrain = .ok w ∧
      w.pool.members[0]? = some ⟨1, none, default, 1⟩ ∧ w.lb.metrics[0]? = some m ∧
      m.recentErrors.toNat = 2 ^ 32 - 1 ∧ m.totalErrors.toNat = 1 := by
  have hends : ends (step Env.plain)
      (fun w => decide (w.pool.members[0]? = some ⟨1, none, default, 1⟩))
      (ofSize 2 (.roundRobin ⟨0⟩)) failuresAndDrain = true := by decide
  obtain ⟨w, hrun, hw⟩ := exists_run_of_ends hends
  have hx := of_decide_eq_true hw
  obtain ⟨m, hm, hrecent, htotal⟩ :=
    health_history (initial_ofSize Nat.two_pos _) hrun hx
  have hmarks : marksOf 1 (gather (step Env.plain) notes (ofSize 2 (Builtin.roundRobin ⟨0⟩))
      failuresAndDrain) = [.drained, .failed] := by decide
  rw [hmarks] at hrecent htotal
  exact ⟨w, m, hrun, hx, hm, hrecent, htotal⟩

theorem isDraining_iff_drained_failuresAndDrain :
    ∃ w, run (step Env.plain) (ofSize 2 (.roundRobin ⟨0⟩)) failuresAndDrain = .ok w ∧
      w.pool.members[0]? = some ⟨1, none, default, 1⟩ ∧ w.lb.isDraining 0 = true := by
  have hends : ends (step Env.plain)
      (fun w => decide (w.pool.members[0]? = some ⟨1, none, default, 1⟩))
      (ofSize 2 (.roundRobin ⟨0⟩)) failuresAndDrain = true := by decide
  obtain ⟨w, hrun, hw⟩ := exists_run_of_ends hends
  have hx := of_decide_eq_true hw
  have hmarks : marksOf 1 (gather (step Env.plain) notes (ofSize 2 (Builtin.roundRobin ⟨0⟩))
      failuresAndDrain) = [.drained, .failed] := by decide
  have hdrained := isDraining_iff_drained (initial_ofSize Nat.two_pos _) hrun hx
    (by rw [hmarks]; decide)
  rw [hmarks] at hdrained
  exact ⟨w, hrun, hx, hdrained.mpr ⟨[], [.failed], rfl, by decide, by decide⟩⟩

end World

end RotaLb
