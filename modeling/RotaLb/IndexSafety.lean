import RotaLb.Slots
import RotaLb.StrategySafety

/-!
# No Operation Indexes Out of Range

A dial indexes `metrics` and `backends` with the strategy's answer, unchecked, and a retry
indexes `backends` again after a sleep; a removal indexes all three vectors. `Steady` is what
makes all of it safe: vectors of one length, a strategy in a state from which it keeps the
contract of `pick`, and dials whose index is in range.

## Main results

* `step_steady`: every event keeps it.
* `step_no_panic`, `run_no_panic`: **from a steady world no event panics, in any run**.
-/

namespace RotaLb

open Rust StepSystem

variable {σ : Type}

/-! ### Panics of the combinators -/

namespace World

/-- A removal from vectors of one length returns. -/
theorem removeBackend_ok {lb : LoadBalancer σ} (hids : lb.ids.length = lb.backends.length)
    (hmetrics : lb.metrics.length = lb.backends.length) (index : ℕ) :
    ∃ done, lb.removeBackend index = .ok done := by
  unfold LoadBalancer.removeBackend
  split
  · exact ⟨_, rfl⟩
  · rename_i hlt
    have hb := Vec.remove_of_lt (not_le.mp hlt)
    have hi := Vec.remove_of_lt (hids ▸ not_le.mp hlt : index < lb.ids.length)
    have hm := Vec.remove_of_lt (hmetrics ▸ not_le.mp hlt : index < lb.metrics.length)
    exact ⟨_, bind_eq_ok.mpr ⟨_, hb, bind_eq_ok.mpr ⟨_, hi, bind_eq_ok.mpr ⟨_, hm, rfl⟩⟩⟩⟩

/-- What an event on an item panics with, its body panics with. -/
theorem onItem_ne_panic {α : Type} {l : List α} {k : ℕ} {f : α → Except Fault (World σ)} {p : Panic}
    (h : ∀ a, l[k]? = some a → f a ≠ .error (.panic p)) : onItem l k f ≠ .error (.panic p) := by
  unfold onItem
  cases ha : l[k]? with
  | none => nofun
  | some a => exact h a ha

/-- A reconfiguration that does not panic does not panic when it is enabled. -/
theorem exclusive_ne_panic {w : World σ} {r : Except Fault (World σ)} {p : Panic}
    (h : r ≠ .error (.panic p)) : w.exclusive r ≠ .error (.panic p) := by
  unfold exclusive
  split
  · exact h
  · nofun

/-- A removal that returns does not panic. -/
theorem removed_ne_panic {w : World σ} {index : ℕ} {r : Except Panic (Done σ Bool)} {p : Panic}
    (h : ∃ done, r = .ok done) : w.removed index r ≠ .error (.panic p) := by
  obtain ⟨done, rfl⟩ := h
  intro h
  simp only [removed] at h
  split at h <;> cases h

end World

/-! ### A dial in range -/

/-- With as many metrics as backends, a dial goes to the backend at the picked index. -/
theorem LoadBalancer.beginDial_picked [BalanceStrategy σ] {env : Env} {draw : ℕ}
    {lb : LoadBalancer σ} (h : lb.metrics.length = lb.backends.length) {addr : String}
    (haddr : validateDialAddr addr = .ok ()) {idx : ℕ} {strategy : σ}
    (hpick : BalanceStrategy.pick env draw lb.strategy ⟨addr, lb.metrics⟩ = .ok (idx, strategy))
    (hlt : idx < lb.metrics.length) :
    ∃ b, lb.backends[idx]? = some b ∧
      lb.beginDial env draw addr = .ok (.picked idx b lb.generation
        { lb with metrics := lb.metrics.modify idx countDial, strategy }) := by
  have hmodify : Vec.modify lb.metrics idx countDial = .ok (lb.metrics.modify idx countDial) :=
    Vec.modify_eq_ok.mpr ⟨hlt, rfl⟩
  have hlt' : idx < lb.backends.length := h ▸ hlt
  have hne : lb.backends.isEmpty = false :=
    List.isEmpty_eq_false_iff.mpr (List.ne_nil_of_length_pos (Nat.zero_lt_of_lt hlt'))
  refine ⟨_, List.getElem?_eq_getElem hlt', ?_⟩
  rw [beginDial, haddr]
  simp only [hne, Bool.false_eq_true, if_false]
  exact bind_eq_ok.mpr ⟨_, bind_eq_ok.mpr ⟨_, hpick, bind_eq_ok.mpr ⟨_, hmodify, rfl⟩⟩,
    bind_eq_ok.mpr ⟨_, Vec.get_of_lt hlt', rfl⟩⟩

section Lawful

variable [BalanceStrategy σ] [LawfulStrategy σ]

/-! ### Steady worlds -/

/-- The event brings in no strategy that breaks the contract. -/
def Event.Lawful : Event σ → Prop
  | .setStrategy s => LawfulStrategy.Good s
  | .replaceBackends _ strategy => ∀ s ∈ strategy, LawfulStrategy.Good s
  | _ => True

namespace World

/-- Vectors of one length, a lawful strategy, and dials in range. -/
structure Steady (w : World σ) : Prop where
  ids : w.lb.ids.length = w.lb.backends.length
  metrics : w.lb.metrics.length = w.lb.backends.length
  strategy : LawfulStrategy.Good w.lb.strategy
  dials : ∀ d ∈ w.dials, d.index < w.lb.backends.length

/-- A new balancer with a lawful strategy is steady. -/
theorem initial_steady {w : World σ} (h : w.Initial) (hgood : LawfulStrategy.Good w.lb.strategy) :
    Steady w := by
  obtain ⟨hb, hi, hm⟩ := (initial_sync h).length
  refine ⟨hi.trans hb.symm, hm.trans hb.symm, hgood, ?_⟩
  obtain ⟨lb, seeds, -, -, rfl⟩ := h
  exact fun d hd => absurd hd List.not_mem_nil

/-- Rewriting metrics keeps a world steady. -/
theorem Steady.onMetrics {w : World σ} (h : Steady w) (idx : ℕ)
    (f : TunnelMetrics → TunnelMetrics) : Steady (w.onMetrics idx f) :=
  ⟨h.ids, (List.length_modify ..).trans h.metrics, h.strategy, h.dials⟩

/-- Moving a dial on does not change its index. -/
theorem Steady.goto {w : World σ} (h : Steady w) {k : ℕ} {d : Dial} (hd : w.dials[k]? = some d)
    (phase : Phase) : Steady (w.goto k d phase) := by
  refine ⟨h.ids, h.metrics, h.strategy, fun x hx => ?_⟩
  rcases List.mem_or_eq_of_mem_set hx with hx | rfl
  · exact h.dials x hx
  · exact h.dials d (List.mem_of_getElem? hd)

/-- **Every event keeps a world steady.** -/
theorem step_steady {env : Env} {w w' : World σ} {e : Event σ} (h : Steady w) (he : e.Lawful)
    (hs : w.step env e = .ok w') : Steady w' := by
  have hnil : w.dials = [] → ∀ n, ∀ d ∈ w.dials, d.index < n := fun hd n d hmem =>
    absurd (hd ▸ hmem : d ∈ []) List.not_mem_nil
  cases step_effect hs with
  | idle => exact h
  | @routed addr _ _ draw _ _ _ _ _ hpick hb hm howner hindex =>
      have hlen := (List.getElem?_eq_some_iff.mp hb).1
      have hview : 0 < PoolView.len ⟨addr, w.lb.metrics⟩ := Nat.zero_lt_of_lt hm
      obtain ⟨i, s', hi, -, hgood⟩ := LawfulStrategy.pick_ok env draw h.strategy hview
      cases hi.symm.trans hpick
      refine ⟨h.ids, (List.length_modify ..).trans h.metrics, hgood, fun x hx => ?_⟩
      rcases List.mem_append.mp hx with hx | hx
      · exact h.dials x hx
      · rw [List.mem_singleton.mp hx, hindex]
        exact hlen
  | moved _ hd => exact h.goto hd _
  | succeeded hd | errored hd => exact (h.onMetrics _ _).goto hd _
  | @connected k d _ hd hphase hreport =>
      obtain ⟨s', hs', hgood⟩ := LawfulStrategy.reportSuccess_ok d.index h.strategy
      cases hs'.symm.trans hreport
      exact ⟨h.ids, h.metrics, hgood, fun x hx => h.dials x (List.mem_of_mem_eraseIdx hx)⟩
  | @returned k d _ _ hd hphase hreport =>
      obtain ⟨s', hs', hgood⟩ := LawfulStrategy.reportError_ok d.index h.strategy
      cases hs'.symm.trans hreport
      exact ⟨h.ids, h.metrics, hgood, fun x hx => h.dials x (List.mem_of_mem_eraseIdx hx)⟩
  | cancelled =>
      exact ⟨h.ids, h.metrics, h.strategy, fun x hx => h.dials x (List.mem_of_mem_eraseIdx hx)⟩
  | dropped | written =>
      exact ⟨h.ids, (List.length_modify ..).trans h.metrics, h.strategy, h.dials⟩
  | stale | checked | contended => exact ⟨h.ids, h.metrics, h.strategy, h.dials⟩
  | entered hd =>
      refine ⟨?_, ?_, h.strategy, hnil hd _⟩
      · simpa [added, LoadBalancer.pushBackend] using h.ids
      · simpa [added, LoadBalancer.pushBackend] using h.metrics
  | left hd _ hb =>
      have hlen := (List.getElem?_eq_some_iff.mp hb).1
      refine ⟨?_, ?_, h.strategy, hnil hd _⟩
      · simp [World.afterLeave, List.length_eraseIdx, h.ids]
      · simp [World.afterLeave, List.length_eraseIdx, h.metrics]
  | @replaced ptrs strategy hd =>
      refine ⟨List.length_replicate, List.length_replicate, ?_, hnil hd _⟩
      cases strategy with
      | none => exact h.strategy
      | some s => exact he s rfl
  | drained hd | undrained hd =>
      exact ⟨h.ids, (List.length_modify ..).trans h.metrics, h.strategy, hnil hd _⟩
  | strategySet hd => exact ⟨h.ids, h.metrics, he, hnil hd _⟩

/-! ### No panic -/

/-- A dial from a steady world is routed to the backend at the picked index. -/
theorem step_start_picked {env : Env} {draw : ℕ} {w : World σ} (h : Steady w) {addr : String}
    (haddr : validateDialAddr addr = .ok ()) {idx : ℕ} {strategy : σ}
    (hpick : BalanceStrategy.pick env draw w.lb.strategy ⟨addr, w.lb.metrics⟩ =
      .ok (idx, strategy)) (hlt : idx < w.lb.metrics.length) (timeout : Option Duration)
    (policy : Option RetryPolicy) :
    ∃ b d, w.lb.backends[idx]? = some b ∧ d.owner = b.tag ∧
      w.step env (.start addr timeout policy draw) = .ok (w.afterRoute idx strategy d) := by
  obtain ⟨b, hb, hbegun⟩ := LoadBalancer.beginDial_picked h.metrics haddr hpick hlt
  exact ⟨b, _, hb, rfl, by rw [step, start, hbegun]; rfl⟩

/-- A dial from a steady world is refused or routed to a backend in range. -/
theorem beginDial_ok (env : Env) (draw : ℕ) {w : World σ} (h : Steady w) (addr : String) :
    ∃ begun, w.lb.beginDial env draw addr = .ok begun := by
  cases haddr : validateDialAddr addr with
  | error e => exact ⟨.refused e, by rw [LoadBalancer.beginDial, haddr]⟩
  | ok u =>
      by_cases hne : w.lb.backends = []
      · refine ⟨.refused .noBackends, ?_⟩
        rw [LoadBalancer.beginDial, haddr]
        exact if_pos (List.isEmpty_iff.mpr hne)
      · have hview : 0 < PoolView.len ⟨addr, w.lb.metrics⟩ := by
          rw [PoolView.len, h.metrics]
          exact List.length_pos_iff.mpr hne
        obtain ⟨idx, s', hpick, hlt, -⟩ := LawfulStrategy.pick_ok env draw h.strategy hview
        obtain ⟨b, -, hbegun⟩ := LoadBalancer.beginDial_picked h.metrics haddr hpick hlt
        exact ⟨_, hbegun⟩

/-- **From a steady world no event panics.** -/
theorem step_no_panic {env : Env} {w : World σ} (h : Steady w) (e : Event σ) (p : Panic) :
    w.step env e ≠ .error (.panic p) := by
  cases e with
  | start addr timeout policy draw =>
      obtain ⟨begun, hbegun⟩ := beginDial_ok env draw h addr
      simp only [step, start, hbegun]
      cases begun <;> nofun
  | attempted k outcome elapsed draw =>
      refine onItem_ne_panic fun d _ => ?_
      unfold attempted
      split
      · split <;> nofun
      · nofun
  | woke k =>
      refine onItem_ne_panic fun d hd => ?_
      unfold woke
      split
      · rw [Vec.get_of_lt (h.dials d (List.mem_of_getElem? hd))]
        nofun
      · nofun
  | lockMetrics k =>
      refine onItem_ne_panic fun d _ => ?_
      unfold lockMetrics
      split <;> nofun
  | lockStrategy k =>
      refine onItem_ne_panic fun d _ => ?_
      obtain ⟨s₁, h₁, -⟩ := LawfulStrategy.reportSuccess_ok d.index h.strategy
      obtain ⟨s₂, h₂, -⟩ := LawfulStrategy.reportError_ok d.index h.strategy
      have hsuccess : w.lb.reportSuccess d.index = .ok { w.lb with strategy := s₁ } :=
        bind_eq_ok.mpr ⟨s₁, h₁, rfl⟩
      have herror : w.lb.reportError d.index = .ok { w.lb with strategy := s₂ } :=
        bind_eq_ok.mpr ⟨s₂, h₂, rfl⟩
      unfold lockStrategy
      rw [hsuccess, herror]
      split <;> nofun
  | cancel | drop | dropCheck | dropWrite => exact onItem_ne_panic fun _ _ => nofun
  | removeBackend index =>
      exact exclusive_ne_panic (removed_ne_panic (removeBackend_ok h.ids h.metrics index))
  | removeBackendById id =>
      refine exclusive_ne_panic (removed_ne_panic ?_)
      unfold LoadBalancer.removeBackendById
      split
      · exact removeBackend_ok h.ids h.metrics _
      · exact ⟨_, rfl⟩
  | removeBackendByPtr ptr =>
      refine exclusive_ne_panic (removed_ne_panic ?_)
      unfold LoadBalancer.removeBackendByPtr
      split
      · exact removeBackend_ok h.ids h.metrics _
      · exact ⟨_, rfl⟩
  | addBackend | addBackendWithId | replaceBackends | drainBackend | undrainBackend
  | setStrategy => exact exclusive_ne_panic nofun

/-- **From a steady world no run panics.** -/
theorem run_no_panic {env : Env} {w : World σ} {es : List (Event σ)} (h : Steady w)
    (hes : ∀ e ∈ es, e.Lawful) (p : Panic) : run (step env) w es ≠ .error (.panic p) := by
  induction es generalizing w with
  | nil => nofun
  | cons e es ih =>
      unfold run
      cases hs : w.step env e with
      | ok w' =>
          exact ih (step_steady h (hes e List.mem_cons_self) hs)
            fun e' he' => hes e' (List.mem_cons_of_mem _ he')
      | error f =>
          intro hp
          exact step_no_panic h e p (hs.trans hp)

end World

end Lawful

end RotaLb
