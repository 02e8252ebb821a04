import RotaLb.Locks

/-!
# Critical Sections Are Atomic

The lock-level system of `RotaLb.Locks` against `RotaLb.World`, in both directions. A section
takes effect when it is released: `commits` gives the event of `World` that a lock-level step
amounts to, if any, and `Mirrors env s w` says how the state between two releases differs from
the world `w` of the events committed so far. Only the writer's row and, after a pick, the
strategy differ, because nobody else can reach them.

## Main results

* `mirrors_step`: one lock-level step carries the relation over.
* `refines_world`: **every interleaving of lock-level steps is a run of `World`**: a section is
  never seen half done, and no update is lost.
* `realizes_world`: **every run of `World` is an interleaving of lock-level steps**.
-/

namespace RotaLb

open Rust StepSystem

variable {σ : Type}

/-! ### Positions -/

/-- What stood at a position stands at the skipped one after another item has gone. -/
theorem getElem?_eraseIdx_skip {α : Type} {l : List α} {j k : ℕ} (hne : j ≠ k) :
    (l.eraseIdx j)[skip j k]? = l[k]? := by
  unfold skip
  split
  · rw [List.getElem?_eraseIdx, if_neg (by omega), Nat.sub_add_cancel (by omega)]
  · rw [List.getElem?_eraseIdx, if_pos (by omega)]

theorem Writer.relabel_id (x : Writer) : x.relabel id id = x := by
  cases x <;> rfl

theorem Holder.relabel_id (x : Holder) : x.relabel id = x := by
  cases x <;> rfl

theorem Writer.hasStrategy_relabel (x : Writer) (f g : ℕ → ℕ) :
    (x.relabel f g).hasStrategy = x.hasStrategy := by
  cases x <;> rfl

theorem Writer.call?_relabel (x : Writer) (f g : ℕ → ℕ) : (x.relabel f g).call? = x.call? := by
  cases x <;> rfl

/-! ### Assignments -/

namespace Assign

theorem applyAll_append_singleton (as : List Assign) (a : Assign) :
    applyAll (as ++ [a]) = a.apply ∘ applyAll as := by
  funext m
  simp [applyAll]

end Assign

namespace World

/-- The world with other contents behind its two locks. -/
def withLocked (w : World σ) (metrics : List TunnelMetrics) (strategy : σ) : World σ :=
  { w with lb := { w.lb with metrics, strategy } }

theorem onMetrics_id (w : World σ) (i : ℕ) : w.onMetrics i (Assign.applyAll []) = w := by
  have hid : Assign.applyAll [] = id := rfl
  rw [onMetrics, hid, List.modify_id]

theorem onMetrics_onMetrics (w : World σ) (i : ℕ) (f g : TunnelMetrics → TunnelMetrics) :
    (w.onMetrics i f).onMetrics i g = w.onMetrics i (g ∘ f) := by
  simp [onMetrics, List.modify_modify_eq]

end World

/-! ### Events that leave the balancer alone -/

/-- The event neither reads nor writes what the locks protect. -/
def Event.passive : Event σ → Bool
  | .attempted .. | .woke _ | .cancel _ | .dropCheck _ | .dropWrite _ false => true
  | _ => false

/-- Where dial `k` stands after the event. -/
def Event.dialAfter : Event σ → ℕ → ℕ
  | .cancel j, k | .lockStrategy j, k => skip j k
  | _, k => k

/-- Where drop `d` stands after the event. -/
def Event.dropAfter : Event σ → ℕ → ℕ
  | .dropWrite j _, d => skip j d
  | _, d => d

/-- The dial waits for a lock, or has it. -/
def Phase.atLock (p : Phase) : Bool := p.assigns.isSome || p.reports

theorem Phase.reports_of_assigns {p : Phase} (h : p.assigns.isSome = true) : p.reports = false := by
  cases p <;> first | rfl | cases h

namespace World

variable [BalanceStrategy σ] {env : Env} {v v' w w' : World σ} {e : Event σ}

/-- A passive event does the same whatever the locks protect. -/
theorem step_passive (he : e.passive = true) (hs : v.step env e = .ok v') {lb : LoadBalancer σ}
    (hbackends : lb.backends = v.lb.backends) (hgen : lb.generation = v.lb.generation) :
    v'.lb = v.lb ∧ step env { v with lb } e = .ok { v' with lb } := by
  cases e with
  | attempted k outcome elapsed draw =>
      obtain ⟨d, hd, hw⟩ := onItem_eq_ok hs
      simp only [step, onItem, hd]
      unfold attempted at hw ⊢
      split at hw
      · split at hw
        · cases hw
          exact ⟨rfl, rfl⟩
        · cases hw
      · cases hw
  | woke k =>
      obtain ⟨d, hd, hw⟩ := onItem_eq_ok hs
      simp only [step, onItem, hd]
      unfold woke at hw ⊢
      rw [hbackends]
      split at hw
      · split at hw
        · cases hw
          exact ⟨rfl, rfl⟩
        · cases hw
      · cases hw
  | cancel k =>
      obtain ⟨d, hd, hw⟩ := onItem_eq_ok hs
      cases hw
      simp [step, onItem, hd, cancel]
  | dropCheck g =>
      obtain ⟨x, hx, hw⟩ := onItem_eq_ok hs
      cases hw
      by_cases h : v.lb.generation = x.guard.genAtCreation <;>
        simp [step, onItem, hx, dropCheck, ActiveConnectionGuard.unchanged, hgen, h]
  | dropWrite d free =>
      obtain rfl : free = false := by cases free <;> simp_all [Event.passive]
      obtain ⟨p, hp, hw⟩ := onItem_eq_ok hs
      cases hw
      simp [step, onItem, hp, dropWrite]
  | _ => simp [Event.passive] at he

/-- A report to the strategy does the same whatever the metrics are. -/
theorem step_lockStrategy {k : ℕ} (hs : v.step env (.lockStrategy k) = .ok v')
    (ms : List TunnelMetrics) :
    v'.lb = { v.lb with strategy := v'.lb.strategy } ∧
      step env { v with lb := { v.lb with metrics := ms } } (.lockStrategy k) =
        .ok { v' with lb := { v'.lb with metrics := ms } } := by
  obtain ⟨d, hd, hw⟩ := onItem_eq_ok hs
  simp only [step, onItem, hd]
  unfold lockStrategy LoadBalancer.reportSuccess LoadBalancer.reportError at hw ⊢
  cases hphase : d.phase with
  | successStrategy =>
      cases hr : BalanceStrategy.reportSuccess v.lb.strategy d.index with
      | error p => simp [hphase, hr, bind, Except.bind] at hw
      | ok strategy =>
          simp only [hphase, hr, bind, Except.bind, pure, Except.pure] at hw ⊢
          cases hw
          exact ⟨rfl, rfl⟩
  | errorStrategy err =>
      cases hr : BalanceStrategy.reportError v.lb.strategy d.index with
      | error p => simp [hphase, hr, bind, Except.bind] at hw
      | ok strategy =>
          simp only [hphase, hr, bind, Except.bind, pure, Except.pure] at hw ⊢
          cases hw
          exact ⟨rfl, rfl⟩
  | _ => simp [hphase] at hw

/-- A dial whose attempt or sleep ends was not at a lock. -/
theorem goto_of_step {j : ℕ}
    (he : (∃ outcome elapsed draw, e = .attempted j outcome elapsed draw) ∨ e = .woke j)
    (hs : w.step env e = .ok w') :
    ∃ d phase, w.dials[j]? = some d ∧ d.phase.atLock = false ∧ w' = w.goto j d phase := by
  rcases he with ⟨outcome, elapsed, draw, rfl⟩ | rfl
  · obtain ⟨d, hd, hw⟩ := onItem_eq_ok hs
    unfold attempted at hw
    split at hw
    · rename_i n hn
      split at hw
      · exact ⟨d, _, hd, by rw [hn]; rfl, (Except.ok.inj hw).symm⟩
      · cases hw
    · cases hw
  · obtain ⟨d, hd, hw⟩ := onItem_eq_ok hs
    unfold woke at hw
    split at hw
    · rename_i n hn
      split at hw
      · exact ⟨d, _, hd, by rw [hn]; rfl, (Except.ok.inj hw).symm⟩
      · cases hw
    · cases hw

omit [BalanceStrategy σ] in
theorem getElem?_goto_of_atLock {j k : ℕ} {d d' : Dial} {phase : Phase} (hj : w.dials[j]? = some d')
    (hfree : d'.phase.atLock = false) (hd : w.dials[k]? = some d)
    (hphase : d.phase.atLock = true) : (w.goto j d' phase).dials[k]? = some d := by
  have hne : j ≠ k := by
    rintro rfl
    obtain rfl : d' = d := Option.some.inj (hj.symm.trans hd)
    rw [hfree] at hphase
    cases hphase
  rwa [goto, List.getElem?_set_ne hne]

/-- A dial that returns is gone, and nothing else moves. -/
theorem tasks_of_lockStrategy {j : ℕ} (hs : w.step env (.lockStrategy j) = .ok w') :
    w'.dials = w.dials.eraseIdx j ∧ w'.drops = w.drops := by
  cases step_effect hs with
  | connected | returned => exact ⟨rfl, rfl⟩
  | idle he => simp [Event.onTask] at he
  | moved he => simp at he
  | stale he => simp at he
  | entered _ he => simp at he
  | left _ he => simp [removalIndex] at he

/-- A dial at a lock is not moved by the events of others. -/
theorem dial_survives (he : e.passive = true ∨ ∃ j, e = .lockStrategy j)
    (hs : w.step env e = .ok w') {k : ℕ} {d : Dial} (hd : w.dials[k]? = some d)
    (hphase : d.phase.atLock = true) (hcancel : e ≠ .cancel k) (hreport : e ≠ .lockStrategy k) :
    w'.dials[e.dialAfter k]? = some d := by
  cases e with
  | attempted j outcome elapsed draw =>
      obtain ⟨d', phase, hj, hfree, rfl⟩ := goto_of_step (.inl ⟨_, _, _, rfl⟩) hs
      exact getElem?_goto_of_atLock hj hfree hd hphase
  | woke j =>
      obtain ⟨d', phase, hj, hfree, rfl⟩ := goto_of_step (.inr rfl) hs
      exact getElem?_goto_of_atLock hj hfree hd hphase
  | cancel j =>
      obtain ⟨d', hd', hw⟩ := onItem_eq_ok hs
      cases hw
      exact (getElem?_eraseIdx_skip (by simpa using hcancel)).trans hd
  | lockStrategy j =>
      rw [(tasks_of_lockStrategy hs).1]
      exact (getElem?_eraseIdx_skip (by simpa using hreport)).trans hd
  | dropCheck g =>
      obtain ⟨x, hx, hw⟩ := onItem_eq_ok hs
      cases hw
      by_cases h : w.lb.generation = x.guard.genAtCreation <;>
        simpa [dropCheck, ActiveConnectionGuard.unchanged, h, Event.dialAfter] using hd
  | dropWrite j free =>
      obtain ⟨p, hp, hw⟩ := onItem_eq_ok hs
      cases hw
      cases free <;> simpa [dropWrite, settle, Event.dialAfter] using hd
  | _ => simp [Event.passive] at he

/-- A drop past its check is not moved by the events of others. -/
theorem drop_survives (he : e.passive = true ∨ ∃ j, e = .lockStrategy j)
    (hs : w.step env e = .ok w') {j : ℕ} {p : Dropping} (hp : w.drops[j]? = some p)
    (hwrite : ∀ free, e ≠ .dropWrite j free) : w'.drops[e.dropAfter j]? = some p := by
  cases e with
  | attempted k outcome elapsed draw =>
      obtain ⟨d', phase, -, -, rfl⟩ := goto_of_step (.inl ⟨_, _, _, rfl⟩) hs
      exact hp
  | woke k =>
      obtain ⟨d', phase, -, -, rfl⟩ := goto_of_step (.inr rfl) hs
      exact hp
  | cancel k =>
      obtain ⟨d', hd', hw⟩ := onItem_eq_ok hs
      cases hw
      exact hp
  | lockStrategy k =>
      rw [(tasks_of_lockStrategy hs).2]
      exact hp
  | dropCheck g =>
      obtain ⟨x, hx, hw⟩ := onItem_eq_ok hs
      cases hw
      by_cases h : w.lb.generation = x.guard.genAtCreation
      · have hlt := (List.getElem?_eq_some_iff.mp hp).1
        simpa [dropCheck, ActiveConnectionGuard.unchanged, h, Event.dropAfter,
          List.getElem?_append_left hlt] using hp
      · simpa [dropCheck, ActiveConnectionGuard.unchanged, h, Event.dropAfter] using hp
  | dropWrite i free =>
      obtain ⟨q, hq, hw⟩ := onItem_eq_ok hs
      cases hw
      have hne : i ≠ j := fun h => hwrite free (h ▸ rfl)
      have hdrops : (w.dropWrite i q free).drops = w.drops.eraseIdx i := by
        cases free <;> rfl
      rw [hdrops]
      exact (getElem?_eraseIdx_skip hne).trans hp
  | _ => simp [Event.passive] at he

/-- A reconfiguration runs while no dial is in progress. -/
theorem dials_of_reconfigures (he : e.reconfigures = true) (hs : v.step env e = .ok v') :
    v.dials = [] := by
  cases e <;> first | exact (exclusive_eq_ok hs).1 | cases he

omit [BalanceStrategy σ] in
theorem exclusive_of_nil {r : Except Fault (World σ)} (h : w.dials = []) : w.exclusive r = r := by
  simp [exclusive, h]

omit [BalanceStrategy σ] in
theorem locksMetrics_onMetrics (i : ℕ) (f : TunnelMetrics → TunnelMetrics) :
    (w.onMetrics i f).locksMetrics e = w.locksMetrics e := by
  cases e <;> rfl

/-- A reconfiguration that does not get as far as the metrics lock, and is not about the
strategy, changes nothing. -/
theorem step_refused (he : e.reconfigures = true) (hlock : v.locksMetrics e = false)
    (hset : ∀ s, e ≠ .setStrategy s) : v.step env e = v.exclusive (.ok v) := by
  cases e with
  | removeBackend index =>
      have hle : v.lb.backends.length ≤ index := by simpa [locksMetrics] using hlock
      simp [step, LoadBalancer.removeBackend, hle, removed]
  | removeBackendById id =>
      have hnone : v.lb.ids.findIdx? (· = some id) = none :=
        Option.not_isSome_iff_eq_none.mp (Bool.eq_false_iff.mp hlock)
      simp [step, LoadBalancer.removeBackendById, hnone, removed]
  | removeBackendByPtr ptr =>
      have hnone : v.lb.backends.findIdx? (·.ptr = ptr) = none :=
        Option.not_isSome_iff_eq_none.mp (Bool.eq_false_iff.mp hlock)
      simp [step, LoadBalancer.removeBackendByPtr, hnone, removed]
  | replaceBackends ptrs strategy =>
      obtain rfl : ptrs = [] := by simpa [locksMetrics] using hlock
      rfl
  | drainBackend index =>
      have hle : v.lb.backends.length ≤ index := by simpa [locksMetrics] using hlock
      simp [step, LoadBalancer.drainBackend, hle, marked]
  | setStrategy strategy => exact absurd rfl (hset strategy)
  | addBackend | addBackendWithId | undrainBackend => simp [locksMetrics] at hlock
  | _ => simp [Event.reconfigures] at he

end World

/-! ### The relation -/

namespace Locked

/-- The event of `World` that a lock-level step amounts to, if any: a section takes effect when
it is released. -/
def commits (s : Locked σ) : LockEvent σ → List (Event σ)
  | .attempted k outcome elapsed draw => [.attempted k outcome elapsed draw]
  | .woke k => [.woke k]
  | .report k => [.lockStrategy k]
  | .cancel k => [.cancel k]
  | .dropCheck g => [.dropCheck g]
  | .tryWrite d => if s.MetricsFree then [] else [.dropWrite d false]
  | .release =>
    match s.writer with
    | some (.counting x draw _ _ _) => [.start x.addr x.timeout x.policy draw]
    | some (.dialing k _ _) => [.lockMetrics k]
    | some (.dropping d _ _) => [.dropWrite d true]
    | _ => []
  | .reconfigure e => [e]
  | _ => []

variable [BalanceStrategy σ] {env : Env} {s s' : Locked σ} {v v' w w' : World σ}
  {wr : Option Writer}

/-- The world `v` in the middle of the writer's section, where `w` is the world before it: the
assignments that have run are visible, and so is what the pick did to the strategy. -/
def Midway (env : Env) (w v : World σ) : Option Writer → Prop
  | none | some (.calling _) | some (.picking _) => v = w
  | some (.counting x draw row done todo) =>
    done ++ todo = Assign.countDial ∧ (done ≠ [] → row < w.lb.metrics.length) ∧
      ∃ strategy,
        BalanceStrategy.pick env draw w.lb.strategy ⟨x.addr, w.lb.metrics⟩ =
          .ok (row, strategy) ∧
        v = (w.onMetrics row (Assign.applyAll done)).onStrategy strategy
  | some (.dialing k done todo) =>
    ∃ d, w.dials[k]? = some d ∧ d.phase.assigns = some (done ++ todo) ∧
      v = w.onMetrics d.index (Assign.applyAll done)
  | some (.dropping j done todo) =>
    done ++ todo = Assign.dropGuard ∧ ∃ p, w.drops[j]? = some p ∧
      v = w.onMetrics p.guard.index (Assign.applyAll done)

/-- The state `s` shows the world `w`, up to the section in progress. -/
structure Mirrors (env : Env) (s : Locked σ) (w : World σ) : Prop where
  world : Midway env w s.world s.writer
  holder : ∀ k, s.holder = some (.dial k) → ∃ d, w.dials[k]? = some d ∧ d.phase.reports = true
  apart : s.holder ≠ none → s.writer.any Writer.hasStrategy = false
  readers : s.writer ≠ none → s.readers = 0
  calls : ∀ x, x ∈ s.calls ∨ s.writer.bind Writer.call? = some x →
    validateDialAddr x.addr = .ok () ∧ w.lb.backends ≠ []

/-- Only what the locks protect differs, and the strategy only after a pick. -/
theorem Midway.frame (h : Midway env w v wr) :
    v = w.withLocked v.lb.metrics v.lb.strategy ∧
      (wr.any Writer.hasStrategy = false → v.lb.strategy = w.lb.strategy) := by
  rcases wr with - | (x | x | ⟨x, draw, row, done, todo⟩ | ⟨k, done, todo⟩ | ⟨j, done, todo⟩)
  · subst h
    exact ⟨rfl, fun _ => rfl⟩
  · subst h
    exact ⟨rfl, fun _ => rfl⟩
  · subst h
    exact ⟨rfl, fun _ => rfl⟩
  · obtain ⟨-, -, strategy, -, rfl⟩ := h
    exact ⟨rfl, nofun⟩
  · obtain ⟨d, -, -, rfl⟩ := h
    exact ⟨rfl, fun _ => rfl⟩
  · obtain ⟨-, p, -, rfl⟩ := h
    exact ⟨rfl, fun _ => rfl⟩

/-- A step beside the writer: the same assignments and the same pick are visible after it, if it
leaves the metrics alone, and the strategy too unless the writer has not reached it. -/
theorem Midway.transfer (h : Midway env w v wr) {f g : ℕ → ℕ} {strategy : σ}
    (hmetrics : w'.lb.metrics = w.lb.metrics)
    (hv : v' = w'.withLocked v.lb.metrics strategy)
    (hstrategy : (w'.lb.strategy = w.lb.strategy ∧ strategy = v.lb.strategy) ∨
      (wr.any Writer.hasStrategy = false ∧ strategy = w'.lb.strategy))
    (hdial : ∀ k done todo d, wr = some (.dialing k done todo) → w.dials[k]? = some d →
      d.phase.assigns.isSome = true → w'.dials[f k]? = some d)
    (hdrop : ∀ j done todo p, wr = some (.dropping j done todo) → w.drops[j]? = some p →
      w'.drops[g j]? = some p) :
    Midway env w' v' (wr.map (·.relabel f g)) := by
  have hsame : v.lb.strategy = w.lb.strategy → strategy = w'.lb.strategy := by
    rintro hvw
    rcases hstrategy with ⟨hw', rfl⟩ | ⟨-, rfl⟩
    · rw [hvw, hw']
    · rfl
  rcases wr with - | (x | x | ⟨x, draw, row, done, todo⟩ | ⟨k, done, todo⟩ | ⟨j, done, todo⟩)
  · obtain rfl : v = w := h
    exact hv.trans (by rw [← hmetrics, hsame rfl]; rfl)
  · obtain rfl : v = w := h
    exact hv.trans (by rw [← hmetrics, hsame rfl]; rfl)
  · obtain rfl : v = w := h
    exact hv.trans (by rw [← hmetrics, hsame rfl]; rfl)
  · obtain ⟨hsplit, hrow, picked, hpick, rfl⟩ := h
    rcases hstrategy with ⟨hw', hpicked⟩ | ⟨hnone, -⟩
    · refine ⟨hsplit, by rwa [hmetrics], picked, by rw [hw', hmetrics]; exact hpick, ?_⟩
      rw [hv, hpicked]
      simp only [World.onMetrics, hmetrics]
      rfl
    · cases hnone
  · obtain ⟨d, hd, hassigns, rfl⟩ := h
    refine ⟨d, hdial k done todo d rfl hd (by simp [hassigns]), hassigns, ?_⟩
    rw [hv, hsame rfl]
    simp only [World.onMetrics, hmetrics]
    rfl
  · obtain ⟨hsplit, p, hp, rfl⟩ := h
    refine ⟨hsplit, p, hdrop j done todo p rfl hp, ?_⟩
    rw [hv, hsame rfl]
    simp only [World.onMetrics, hmetrics]
    rfl

/-- The tasks beside a passive event stay where the relation has them. -/
theorem Mirrors.passive (h : Mirrors env s w) {e : Event σ} (he : e.passive = true)
    (hs : s.world.step env e = .ok v') (hcancel : ∀ k, e = .cancel k → s.Outside k)
    (hwrite : ∀ d free, e = .dropWrite d free → s.writer.any (·.isDrop d) = false) :
    ∃ w', w.step env e = .ok w' ∧
      Mirrors env { s with
        world := v'
        writer := s.writer.map (·.relabel e.dialAfter e.dropAfter)
        holder := s.holder.map (·.relabel e.dialAfter) } w' := by
  obtain ⟨hframe, -⟩ := h.world.frame
  -- The event sees only what the two worlds share.
  have hlb : w.lb.backends = s.world.lb.backends ∧ w.lb.generation = s.world.lb.generation := by
    rw [hframe]
    exact ⟨rfl, rfl⟩
  obtain ⟨hv', hstep⟩ := World.step_passive he hs hlb.1 hlb.2
  have hw : ({ s.world with lb := w.lb } : World σ) = w := by
    rw [hframe]
    rfl
  rw [hw] at hstep
  refine ⟨{ v' with lb := w.lb }, hstep, ?_, ?_, ?_, ?_, ?_⟩
  · refine h.world.transfer rfl ?_ (.inl ⟨rfl, rfl⟩) ?_ ?_
    · have hlb' : v'.lb = { w.lb with
          metrics := s.world.lb.metrics, strategy := s.world.lb.strategy } := by
        rw [hv', hframe]
        rfl
      simp only [World.withLocked, ← hlb']
    · intro k done todo d hwr hd hphase
      refine World.dial_survives (.inl he) hstep hd (by simp [Phase.atLock, hphase]) ?_ ?_
      · rintro rfl
        simpa [hwr, Writer.isDial] using (hcancel k rfl).1
      · rintro rfl
        cases he
    · intro j done todo p hwr hp
      refine World.drop_survives (.inl he) hstep hp ?_
      rintro free rfl
      simpa [hwr, Writer.isDrop] using hwrite j free rfl
  · intro k hk
    obtain ⟨x, hx, hxk⟩ := Option.map_eq_some_iff.mp hk
    cases x with
    | reader => cases hxk
    | dial j =>
        cases hxk
        obtain ⟨d, hd, hphase⟩ := h.holder j hx
        refine ⟨d, World.dial_survives (.inl he) hstep hd (by simp [Phase.atLock, hphase]) ?_ ?_,
          hphase⟩
        · rintro rfl
          exact (hcancel j rfl).2 hx
        · rintro rfl
          cases he
  · intro hne
    have := h.apart (by simpa using hne)
    simpa [Option.any_map, Function.comp_def, Writer.hasStrategy_relabel] using this
  · exact fun hne => h.readers (by simpa using hne)
  · refine fun x hx => h.calls x (hx.imp_right fun hx => ?_)
    simpa [Option.bind_map, Function.comp_def, Writer.call?_relabel] using hx

/-- A passive event that moves no dial and no drop. -/
theorem Mirrors.beside (h : Mirrors env s w) {e : Event σ} (he : e.passive = true)
    (hs : s.world.step env e = .ok v') (hdial : e.dialAfter = id) (hdrop : e.dropAfter = id)
    (hcancel : ∀ k, e ≠ .cancel k) (hwrite : ∀ d free, e ≠ .dropWrite d free) :
    ∃ w', run (World.step env) w [e] = .ok w' ∧ Mirrors env { s with world := v' } w' := by
  obtain ⟨w', hstep, hm⟩ := h.passive he hs (fun k hk => absurd hk (hcancel k))
    fun d free hd => absurd hd (hwrite d free)
  refine ⟨w', run_singleton.mpr hstep, ?_⟩
  simpa [hdial, hdrop, Writer.relabel_id, Holder.relabel_id] using hm

/-- A report beside the writer. -/
theorem Mirrors.report (h : Mirrors env s w) {k : ℕ} (hk : s.holder = some (.dial k))
    (hs : s.world.step env (.lockStrategy k) = .ok v') :
    ∃ w', w.step env (.lockStrategy k) = .ok w' ∧
      Mirrors env { s.forget k v' with holder := none } w' := by
  obtain ⟨hframe, hstrategy⟩ := h.world.frame
  have hapart := h.apart (by simp [hk])
  obtain ⟨hv', hstep⟩ := World.step_lockStrategy hs w.lb.metrics
  have hw : ({ s.world with lb := { s.world.lb with metrics := w.lb.metrics } } : World σ) = w := by
    rw [hframe, hstrategy hapart]
    rfl
  rw [hw] at hstep
  refine ⟨_, hstep, ?_, nofun, fun hne => absurd rfl hne, ?_, ?_⟩
  · refine h.world.transfer rfl ?_ (.inr ⟨hapart, rfl⟩) ?_ ?_
    · have hmetrics : v'.lb.metrics = s.world.lb.metrics := by rw [hv']
      simp only [World.withLocked, ← hmetrics, forget]
    · intro j done todo d hwr hd hphase
      refine World.dial_survives (.inr ⟨k, rfl⟩) hstep hd (by simp [Phase.atLock, hphase]) nofun ?_
      rintro heq
      cases heq
      obtain ⟨d', hd', hreports⟩ := h.holder k hk
      cases hd.symm.trans hd'
      simp [Phase.reports_of_assigns hphase] at hreports
    · exact fun j done todo p _ hp => World.drop_survives (.inr ⟨k, rfl⟩) hstep hp nofun
  · exact fun hne => h.readers (by simpa [forget] using hne)
  · intro x hx
    obtain ⟨haddr, hne⟩ := h.calls x (hx.imp_right fun hx => by
      simpa [forget, Option.bind_map, Function.comp_def, Writer.call?_relabel] using hx)
    refine ⟨haddr, ?_⟩
    rw [hframe] at hv'
    rw [hv']
    exact hne

/-- A reconfiguration, with a drop guard in its section at most. -/
theorem Mirrors.reconfigure (h : Mirrors env s w) {e : Event σ} (hex : s.Exclusive e)
    (hs : s.world.step env e = .ok v') :
    ∃ w', w.step env e = .ok w' ∧ Mirrors env { s with world := v' } w' := by
  obtain ⟨hre, hcalls, hnocall, hreaders, hholder, hlock⟩ := hex
  -- What remains of the relation beside the worlds.
  have hrest : ∀ w', Midway env w' v' s.writer → Mirrors env { s with world := v' } w' := by
    intro w' hw'
    refine ⟨hw', by simp [hholder], by simp [hholder], fun _ => hreaders, fun x hx => ?_⟩
    rcases hx with hx | hx
    · simp [hcalls] at hx
    · obtain ⟨y, hy, hyx⟩ := Option.bind_eq_some_iff.mp hx
      have hy : s.writer = some y := hy
      simp [hy, hyx] at hnocall
  have hworld := h.world
  rcases hwr : s.writer with
    - | (x | x | ⟨x, draw, row, done, todo⟩ | ⟨k, done, todo⟩ | ⟨j, done, todo⟩)
  all_goals rw [hwr] at hworld hrest hnocall hlock
  · obtain rfl : s.world = w := hworld
    exact ⟨v', hs, hrest v' rfl⟩
  · cases hnocall
  · cases hnocall
  · cases hnocall
  · -- A dial in its section holds `&self`.
    obtain ⟨d, hd, -, heq⟩ := hworld
    have hdials : w.dials = [] := by
      have := World.dials_of_reconfigures hre hs
      rwa [heq] at this
    simp [hdials] at hd
  · obtain ⟨hsplit, p, hp, heq⟩ := hworld
    have hfree : s.world.locksMetrics e = false :=
      Bool.eq_false_iff.mpr fun htrue => by cases hlock htrue
    have hdials := World.dials_of_reconfigures hre hs
    rw [heq] at hs hdials
    rw [heq, World.locksMetrics_onMetrics] at hfree
    have hdials : w.dials = [] := hdials
    by_cases hset : ∃ strategy, e = .setStrategy strategy
    · obtain ⟨strategy, rfl⟩ := hset
      obtain ⟨-, hv⟩ := World.exclusive_eq_ok hs
      cases hv
      exact ⟨w.onStrategy strategy, World.exclusive_of_nil hdials, hrest _ ⟨hsplit, p, hp, rfl⟩⟩
    · push Not at hset
      rw [World.step_refused hre (by rwa [World.locksMetrics_onMetrics]) hset] at hs
      obtain ⟨-, hv⟩ := World.exclusive_eq_ok hs
      cases hv
      refine ⟨w, ?_, hrest w ⟨hsplit, p, hp, rfl⟩⟩
      rw [World.step_refused hre hfree hset, World.exclusive_of_nil hdials]

/-- The same call, if any, goes on as the writer. -/
theorem Mirrors.goOn (h : Mirrors env s w) {x x' : Writer} (hx : s.writer = some x)
    (hw : Midway env w v (some x')) (hstrategy : x'.hasStrategy = x.hasStrategy)
    (hcall : x'.call? = x.call?) : Mirrors env { s with world := v, writer := some x' } w where
  world := hw
  holder := h.holder
  apart hne := by simpa [hx, hstrategy] using h.apart hne
  readers _ := h.readers (by simp [hx])
  calls y hy := h.calls y (hy.imp_right fun hy => by simpa [hx, ← hcall] using hy)

/-- The writer's next assignment moves the section on. -/
theorem Mirrors.assign (h : Mirrors env s w) (hs : s.assign = .ok s') : Mirrors env s' w := by
  have hworld := h.world
  unfold Locked.assign at hs
  split at hs
  · rename_i x draw row done a todo hwr
    rw [hwr] at hworld
    obtain ⟨hsplit, hrow, strategy, hpick, heq⟩ := hworld
    cases hm : Vec.modify s.world.lb.metrics row a.apply with
    | error p => simp [hm] at hs
    | ok metrics =>
        rw [hm] at hs
        cases hs
        obtain ⟨hlt, rfl⟩ := Vec.modify_eq_ok.mp hm
        refine h.goOn hwr ⟨by simpa using hsplit, fun _ => ?_, strategy, hpick, ?_⟩ rfl rfl
        · simpa [heq, World.onStrategy, World.onMetrics] using hlt
        · rw [Assign.applyAll_append_singleton, ← World.onMetrics_onMetrics, heq]
          rfl
  · rename_i k done a todo hwr
    rw [hwr] at hworld
    obtain ⟨d, hd, hassigns, heq⟩ := hworld
    obtain ⟨d', hd', hs⟩ := onItem_eq_ok.mp hs
    obtain rfl : d' = d := Option.some.inj (hd'.symm.trans (by rw [heq]; exact hd))
    cases hs
    refine h.goOn hwr ⟨d', hd, by simpa using hassigns, ?_⟩ rfl rfl
    rw [Assign.applyAll_append_singleton, ← World.onMetrics_onMetrics, heq]
  · rename_i j done a todo hwr
    rw [hwr] at hworld
    obtain ⟨hsplit, p, hp, heq⟩ := hworld
    obtain ⟨p', hp', hs⟩ := onItem_eq_ok.mp hs
    obtain rfl : p' = p := Option.some.inj (hp'.symm.trans (by rw [heq]; exact hp))
    cases hs
    refine h.goOn hwr ⟨by simpa using hsplit, p', hp, ?_⟩ rfl rfl
    rw [Assign.applyAll_append_singleton, ← World.onMetrics_onMetrics, heq]
  · cases hs

/-- With the lock released the state shows the world itself. -/
theorem Mirrors.released (h : Mirrors env s w) (hb : v.lb.backends = w.lb.backends)
    (hdials : ∀ k d, s.holder = some (.dial k) → w.dials[k]? = some d → d.phase.reports = true →
      v.dials[k]? = some d) : Mirrors env { s with world := v, writer := none } v where
  world := rfl
  holder k hk := by
    obtain ⟨d, hd, hphase⟩ := h.holder k hk
    exact ⟨d, hdials k d hk hd hphase, hphase⟩
  apart _ := rfl
  readers hne := absurd rfl hne
  calls x hx := by
    obtain ⟨haddr, hne⟩ := h.calls x (.inl (hx.resolve_right nofun))
    exact ⟨haddr, hb ▸ hne⟩

/-- The release of a section is where it takes effect. -/
theorem Mirrors.release (h : Mirrors env s w) (hs : s.release = .ok s') :
    ∃ w', run (World.step env) w (s.commits .release) = .ok w' ∧ Mirrors env s' w' := by
  have hworld := h.world
  unfold Locked.release at hs
  split at hs
  · rename_i x draw row done hwr
    rw [hwr] at hworld
    obtain ⟨hsplit, hrow, strategy, hpick, heq⟩ := hworld
    obtain rfl : done = Assign.countDial := by simpa using hsplit
    have hb : w.lb.backends = s.world.lb.backends := by rw [heq]; rfl
    cases hget : Vec.get s.world.lb.backends row with
    | error p => simp [hget] at hs
    | ok b =>
        rw [hget] at hs
        cases hs
        have hstart := World.start_of_pick x.timeout x.policy
          (h.calls x (.inr (by simp [hwr, Writer.call?]))).1 hpick
          (hrow (by simp [Assign.countDial])) (hb ▸ Vec.get_eq_ok.mp hget)
        refine ⟨_, by simpa [commits, hwr, run_singleton] using hstart, ?_⟩
        rw [heq]
        refine h.released rfl fun k d _ hd _ => ?_
        exact (List.getElem?_append_left (List.getElem?_eq_some_iff.mp hd).1).trans hd
  · rename_i k done hwr
    rw [hwr] at hworld
    obtain ⟨d, hd, hassigns, heq⟩ := hworld
    obtain ⟨d', hd', hs⟩ := onItem_eq_ok.mp hs
    obtain rfl : d' = d := Option.some.inj (hd'.symm.trans (by rw [heq]; exact hd))
    cases hs
    refine ⟨s.world.goto k d' d'.phase.recorded, ?_, h.released (by rw [heq]; rfl) ?_⟩
    · have hstep : w.step env (.lockMetrics k) = .ok (s.world.goto k d' d'.phase.recorded) := by
        rw [heq]
        cases hphase : d'.phase with
        | successMetrics =>
            obtain rfl : [.clearRecent] = done := by simpa [hphase, Phase.assigns] using hassigns
            rw [World.step, World.onItem, hd]
            simp only [World.lockMetrics, hphase]
            rfl
        | errorMetrics err =>
            obtain rfl : [.decActive, .incErrors, .incRecent] = done := by
              simpa [hphase, Phase.assigns] using hassigns
            rw [World.step, World.onItem, hd]
            simp only [World.lockMetrics, hphase]
            rfl
        | _ => simp [hphase, Phase.assigns] at hassigns
      simpa [commits, hwr, run_singleton] using hstep
    · intro j d _ hj hreports
      have hne : k ≠ j := by
        rintro rfl
        obtain rfl : d' = d := Option.some.inj (hd.symm.trans hj)
        have hnot := Phase.reports_of_assigns (p := d'.phase) (by simp [hassigns])
        simp [hnot] at hreports
      rw [heq]
      exact (List.getElem?_set_ne hne).trans hj
  · rename_i j done hwr
    rw [hwr] at hworld
    obtain ⟨hsplit, p, hp, heq⟩ := hworld
    obtain ⟨p', hp', hs⟩ := onItem_eq_ok.mp hs
    obtain rfl : p' = p := Option.some.inj (hp'.symm.trans (by rw [heq]; exact hp))
    cases hs
    obtain rfl : done = Assign.dropGuard := by simpa using hsplit
    refine ⟨{ w with drops := w.drops.eraseIdx j }.settle p'.guard p'.owner, ?_, ?_⟩
    · have hstep : w.step env (.dropWrite j true) =
          .ok ({ w with drops := w.drops.eraseIdx j }.settle p'.guard p'.owner) := by
        simp [World.step, World.onItem, hp, World.dropWrite]
      simpa [commits, hwr, run_singleton] using hstep
    · rw [heq]
      exact h.released rfl fun k d _ hd _ => hd
  · cases hs

/-- **One lock-level step** amounts to what it commits. -/
theorem mirrors_step {e : LockEvent σ} (h : Mirrors env s w) (hs : s.step env e = .ok s') :
    ∃ w', run (World.step env) w (s.commits e) = .ok w' ∧ Mirrors env s' w' := by
  cases e with
  | call addr timeout policy =>
      refine ⟨w, rfl, ?_⟩
      simp only [step] at hs
      split at hs
      · cases hs
        exact h
      · rename_i haddr
        split at hs
        · cases hs
          exact h
        · rename_i hne
          cases hs
          obtain ⟨hframe, -⟩ := h.world.frame
          have hb : w.lb.backends ≠ [] := by
            rw [hframe] at hne
            simpa [World.withLocked] using hne
          refine { h with calls := fun x hx => ?_ }
          rcases hx with hx | hx
          · rcases List.mem_append.mp hx with hx | hx
            · exact h.calls x (.inl hx)
            · cases List.mem_singleton.mp hx
              exact ⟨haddr, hb⟩
          · exact h.calls x (.inr hx)
  | callMetrics c =>
      obtain ⟨x, hx, hs⟩ := onItem_eq_ok.mp hs
      obtain ⟨⟨hfree, hreaders⟩, rfl⟩ := guarded_eq_ok.mp hs
      have hworld := h.world
      rw [hfree] at hworld
      refine ⟨w, rfl, hworld, h.holder, fun _ => rfl, fun _ => hreaders, fun y hy => ?_⟩
      rcases hy with hy | hy
      · exact h.calls y (.inl (List.mem_of_mem_eraseIdx hy))
      · cases hy
        exact h.calls x (.inl (List.mem_of_getElem? hx))
  | callStrategy =>
      simp only [step] at hs
      split at hs
      · rename_i x hwr
        obtain ⟨⟨hholder, -⟩, rfl⟩ := guarded_eq_ok.mp hs
        have hworld := h.world
        rw [hwr] at hworld
        refine ⟨w, rfl, hworld, h.holder, fun hne => absurd hholder hne,
          fun _ => h.readers (by simp [hwr]), fun y hy => h.calls y (hy.imp_right fun hy => ?_)⟩
        simpa [hwr, Writer.call?] using hy
      · cases hs
  | pick draw =>
      simp only [step] at hs
      split at hs
      · rename_i x hwr
        have hworld := h.world
        rw [hwr] at hworld
        obtain rfl : s.world = w := hworld
        split at hs
        · rename_i row strategy hpick
          cases hs
          refine ⟨_, rfl, h.goOn hwr ⟨rfl, fun hne => absurd rfl hne, strategy, hpick, ?_⟩ rfl rfl⟩
          rw [World.onMetrics_id]
        · cases hs
      · cases hs
  | cancelCall c =>
      obtain ⟨x, hx, hs⟩ := onItem_eq_ok.mp hs
      cases hs
      exact ⟨w, rfl, h.world, h.holder, h.apart, h.readers, fun y hy =>
        h.calls y (hy.imp_left List.mem_of_mem_eraseIdx)⟩
  | cancelCalling =>
      simp only [step] at hs
      split at hs
      · rename_i x hwr
        cases hs
        have hworld := h.world
        rw [hwr] at hworld
        obtain rfl : s.world = w := hworld
        exact ⟨_, rfl, h.released rfl fun k d _ hd _ => hd⟩
      · cases hs
  | attempted k outcome elapsed draw =>
      obtain ⟨v, hv, rfl⟩ := within_eq_ok.mp hs
      exact h.beside (e := .attempted k outcome elapsed draw) rfl hv rfl rfl (by simp) (by simp)
  | woke k =>
      obtain ⟨v, hv, rfl⟩ := within_eq_ok.mp hs
      exact h.beside (e := .woke k) rfl hv rfl rfl (by simp) (by simp)
  | dialMetrics k =>
      obtain ⟨d, hd, hs⟩ := onItem_eq_ok.mp hs
      cases hassigns : d.phase.assigns with
      | none => simp [hassigns] at hs
      | some as =>
          rw [hassigns] at hs
          obtain ⟨⟨hfree, hreaders⟩, rfl⟩ := guarded_eq_ok.mp hs
          have hworld := h.world
          rw [hfree] at hworld
          obtain rfl : s.world = w := hworld
          refine ⟨_, rfl, ⟨d, hd, hassigns, ?_⟩, h.holder, fun _ => rfl, fun _ => hreaders,
            fun x hx => h.calls x (.inl (hx.resolve_right (by simp [Writer.call?])))⟩
          rw [World.onMetrics_id]
  | dialStrategy k =>
      obtain ⟨d, hd, hs⟩ := onItem_eq_ok.mp hs
      obtain ⟨⟨hreports, -, hapart⟩, rfl⟩ := guarded_eq_ok.mp hs
      obtain ⟨hframe, -⟩ := h.world.frame
      refine ⟨w, rfl, h.world, fun j hj => ?_, fun _ => hapart, h.readers, h.calls⟩
      cases hj
      rw [hframe] at hd
      exact ⟨d, hd, hreports⟩
  | report k =>
      simp only [step] at hs
      split at hs
      · obtain ⟨v, hv, rfl⟩ := within_eq_ok.mp hs
        obtain ⟨w', hstep, hm⟩ := h.report ‹_› hv
        exact ⟨w', run_singleton.mpr hstep, hm⟩
      · cases hs
  | cancel k =>
      obtain ⟨d, hd, hs⟩ := onItem_eq_ok.mp hs
      obtain ⟨houtside, rfl⟩ := guarded_eq_ok.mp hs
      have hstep : s.world.step env (.cancel k) = .ok (s.world.cancel k d) := by
        simp [World.step, World.onItem, hd]
      obtain ⟨w', hw', hm⟩ := h.passive rfl hstep (fun j hj => by cases hj; exact houtside)
        (by simp)
      exact ⟨w', run_singleton.mpr hw', hm⟩
  | dropCheck g =>
      obtain ⟨x, hx, hs⟩ := onItem_eq_ok.mp hs
      cases hs
      have hstep : s.world.step env (.dropCheck g) = .ok (s.world.dropCheck g x) := by
        simp [World.step, World.onItem, hx]
      exact h.beside rfl hstep rfl rfl (by simp) (by simp)
  | tryWrite d =>
      obtain ⟨p, hp, hs⟩ := onItem_eq_ok.mp hs
      obtain ⟨hnot, rfl⟩ := guarded_eq_ok.mp hs
      by_cases hfree : s.MetricsFree
      · have hworld := h.world
        rw [hfree.1] at hworld
        obtain rfl : s.world = w := hworld
        simp only [commits, tryWrite, hfree, if_true]
        refine ⟨_, rfl, ⟨rfl, p, hp, ?_⟩, h.holder, fun _ => rfl, fun _ => hfree.2,
          fun x hx => h.calls x (.inl (hx.resolve_right (by simp [Writer.call?])))⟩
        rw [World.onMetrics_id]
      · simp only [commits, tryWrite, hfree, if_false]
        have hstep : s.world.step env (.dropWrite d false) = .ok (s.world.dropWrite d p false) := by
          simp [World.step, World.onItem, hp]
        obtain ⟨w', hw', hm⟩ := h.passive rfl hstep (by simp)
          (fun j free hj => by cases hj; exact hnot)
        have hdial : Event.dialAfter (.dropWrite d false : Event σ) = id := rfl
        have hdrop : Event.dropAfter (.dropWrite d false : Event σ) = skip d := rfl
        refine ⟨w', run_singleton.mpr hw', ?_⟩
        simpa [hdial, hdrop, Holder.relabel_id, funext_iff] using hm
  | assign => exact ⟨w, rfl, h.assign hs⟩
  | release => exact h.release hs
  | read =>
      obtain ⟨hnone, rfl⟩ := guarded_eq_ok.mp hs
      exact ⟨w, rfl, { h with readers := fun hne => absurd hnone hne }⟩
  | unread =>
      obtain ⟨-, rfl⟩ := guarded_eq_ok.mp hs
      exact ⟨w, rfl, { h with readers := fun hne => by simp [h.readers hne] }⟩
  | readName =>
      obtain ⟨⟨-, hapart⟩, rfl⟩ := guarded_eq_ok.mp hs
      exact ⟨w, rfl, { h with holder := by simp, apart := fun _ => hapart }⟩
  | unreadName =>
      obtain ⟨-, rfl⟩ := guarded_eq_ok.mp hs
      exact ⟨w, rfl, { h with holder := by simp, apart := fun hne => absurd rfl hne }⟩
  | reconfigure e =>
      simp only [step] at hs
      split at hs
      · obtain ⟨v, hv, rfl⟩ := within_eq_ok.mp hs
        obtain ⟨w', hstep, hm⟩ := h.reconfigure ‹_› hv
        exact ⟨w', run_singleton.mpr hstep, hm⟩
      · cases hs

/-- A quiet state shows its world. -/
theorem mirrors_quiet (w : World σ) : Mirrors env (quiet w) w :=
  ⟨rfl, nofun, fun hne => absurd rfl hne, fun hne => absurd rfl hne,
    fun _ hx => (hx.elim List.not_mem_nil nofun).elim⟩

/-! ### Every event of a world, lock by lock -/

/-- A call that obtains both locks at once, picks and counts. -/
theorem run_call {addr : String} {timeout : Option Duration} {policy : Option RetryPolicy}
    {draw row : ℕ} {strategy : σ} {b : Backend} (haddr : validateDialAddr addr = .ok ())
    (hpick : BalanceStrategy.pick env draw w.lb.strategy ⟨addr, w.lb.metrics⟩ =
      .ok (row, strategy)) (hrow : row < w.lb.metrics.length)
    (hb : w.lb.backends[row]? = some b) :
    run (step env) (quiet w) [.call addr timeout policy, .callMetrics 0, .callStrategy, .pick draw,
        .assign, .assign, .release] =
      .ok (quiet (w.afterRoute row strategy {
        owner := b.tag, index := row, gen := w.lb.generation
        timeout := timeout.or w.lb.dialTimeout
        policy := policy.or w.lb.retryPolicy
        phase := .awaitDial 1 })) := by
  have hne : w.lb.backends.isEmpty = false := by
    cases hbs : w.lb.backends with
    | nil => simp [hbs] at hb
    | cons => rfl
  have hcount : Assign.incDials.apply ∘ Assign.incActive.apply = LoadBalancer.countDial := rfl
  simp [run, step, haddr, hne, quiet, onItem, guarded, MetricsFree, StrategyFree,
    Writer.hasStrategy, hpick, Assign.countDial, Locked.assign, World.onStrategy, Vec.modify, hrow,
    Locked.release, Vec.get, hb, World.afterRoute, List.modify_modify_eq, hcount]

/-- The assignments of a dial's section, one after the other. -/
theorem run_assigns {k : ℕ} {d : Dial} {done todo : List Assign} (hd : s.world.dials[k]? = some d)
    (hwr : s.writer = some (.dialing k done todo)) :
    run (step env) s (todo.map fun _ => .assign) = .ok { s with
      world := s.world.onMetrics d.index (Assign.applyAll todo)
      writer := some (.dialing k (done ++ todo) []) } := by
  induction todo generalizing s done with
  | nil => simp [World.onMetrics_id, ← hwr]
  | cons a todo ih =>
      rw [List.map_cons, run_cons_eq_ok]
      refine ⟨{ s with
        world := s.world.onMetrics d.index a.apply
        writer := some (.dialing k (done ++ [a]) todo) }, ?_, ?_⟩
      · simp [step, Locked.assign, hwr, onItem, hd]
      · refine (ih (s := { s with world := s.world.onMetrics d.index a.apply, writer := _ }) hd
          rfl).trans ?_
        simp only [World.onMetrics_onMetrics, List.append_assoc]
        rfl

/-- A dial that records its end without waiting. -/
theorem run_dialMetrics {k : ℕ} {d : Dial} {as : List Assign} (hd : w.dials[k]? = some d)
    (has : d.phase.assigns = some as) :
    run (step env) (quiet w) (.dialMetrics k :: as.map (fun _ => .assign) ++ [.release]) =
      .ok (quiet ((w.onMetrics d.index (Assign.applyAll as)).goto k d d.phase.recorded)) := by
  rw [List.cons_append, run_cons_eq_ok]
  refine ⟨{ quiet w with writer := some (.dialing k [] as) }, ?_, run_append.mpr ⟨_,
    run_assigns (d := d) hd rfl, run_singleton.mpr ?_⟩⟩
  · simp [step, onItem, quiet, hd, has, guarded, MetricsFree]
  · simp [step, Locked.release, onItem, World.onMetrics, quiet, hd]

/-- A dial that reports its end without waiting. -/
theorem run_report {k : ℕ} {d : Dial} (hd : w.dials[k]? = some d) (hphase : d.phase.reports = true)
    (hs : w.step env (.lockStrategy k) = .ok w') :
    run (step env) (quiet w) [.dialStrategy k, .report k] = .ok (quiet w') := by
  have hs' : World.onItem w.dials k (fun d => w.lockStrategy k d) = .ok w' := hs
  simp [run, step, onItem, quiet, hd, guarded, hphase, StrategyFree, hs', within, forget]

/-- A drop guard that obtains the lock. -/
theorem run_tryWrite {j : ℕ} {p : Dropping} (hp : w.drops[j]? = some p) :
    run (step env) (quiet w) [.tryWrite j, .assign, .release] =
      .ok (quiet ({ w with drops := w.drops.eraseIdx j }.settle p.guard p.owner)) := by
  simp only [run, step, onItem, quiet, hp, guarded, tryWrite, MetricsFree, Locked.assign,
    Locked.release, Assign.dropGuard, World.onMetrics, Option.any_none, and_self, if_true]
  rfl

/-- A drop guard that finds a reader at the lock. -/
theorem run_contended {j : ℕ} {p : Dropping} (hp : w.drops[j]? = some p) :
    run (step env) (quiet w) [.read, .tryWrite j, .unread] =
      .ok (quiet (w.dropWrite j p false)) := by
  simp [run, step, onItem, quiet, hp, guarded, tryWrite, MetricsFree]

/-- A reconfiguration that finds the locks free. -/
theorem run_reconfigure {e : Event σ} (he : e.reconfigures = true) (hs : w.step env e = .ok w') :
    run (step env) (quiet w) [.reconfigure e] = .ok (quiet w') := by
  refine run_singleton.mpr ?_
  simp [step, Exclusive, quiet, he, hs, within]

/-- Every event of a world, the drop in one step apart, can be carried out lock by lock. -/
theorem realizes_event {e : Event σ} (he : ∀ g, e ≠ .drop g) (hs : w.step env e = .ok w') :
    ∃ es, run (step env) (quiet w) es = .ok (quiet w') := by
  cases e with
  | start addr timeout policy draw =>
      cases World.step_effect hs with
      | idle => exact ⟨[], rfl⟩
      | routed haddr hpick hb hm =>
          rw [World.start_of_pick _ _ haddr hpick hm hb] at hs
          exact ⟨_, Except.ok.inj hs ▸ run_call haddr hpick hm hb⟩
      | moved he => simp at he
      | stale he => simp at he
      | entered _ he => simp at he
      | left _ he => simp [World.removalIndex] at he
  | attempted k outcome elapsed draw =>
      exact ⟨[.attempted k outcome elapsed draw],
        run_singleton.mpr (within_eq_ok.mpr ⟨w', hs, rfl⟩)⟩
  | woke k => exact ⟨[.woke k], run_singleton.mpr (within_eq_ok.mpr ⟨w', hs, rfl⟩)⟩
  | lockMetrics k =>
      obtain ⟨d, hd, hw⟩ := World.onItem_eq_ok hs
      unfold World.lockMetrics at hw
      split at hw
      · rename_i hphase
        cases hw
        have hrun : run (step env) (quiet w) _ = _ :=
          run_dialMetrics hd (by rw [hphase]; rfl)
        rw [hphase] at hrun
        exact ⟨_, hrun⟩
      · rename_i err hphase
        cases hw
        have hrun : run (step env) (quiet w) _ = _ :=
          run_dialMetrics hd (by rw [hphase]; rfl)
        rw [hphase] at hrun
        exact ⟨_, hrun⟩
      · cases hw
  | lockStrategy k =>
      obtain ⟨d, hd, hw⟩ := World.onItem_eq_ok hs
      refine ⟨_, run_report hd ?_ hs⟩
      unfold World.lockStrategy at hw
      split at hw
      · rw [‹d.phase = _›]
        rfl
      · rw [‹d.phase = _›]
        rfl
      · cases hw
  | cancel k =>
      obtain ⟨d, hd, hw⟩ := World.onItem_eq_ok hs
      cases hw
      exact ⟨[.cancel k], run_singleton.mpr (by
        simp [step, onItem, quiet, hd, guarded, Outside, forget])⟩
  | drop g => exact absurd rfl (he g)
  | dropCheck g =>
      obtain ⟨x, hx, hw⟩ := World.onItem_eq_ok hs
      cases hw
      exact ⟨[.dropCheck g], run_singleton.mpr (by simp [step, onItem, quiet, hx])⟩
  | dropWrite j free =>
      obtain ⟨p, hp, hw⟩ := World.onItem_eq_ok hs
      cases hw
      cases free with
      | true => exact ⟨_, run_tryWrite hp⟩
      | false => exact ⟨_, run_contended hp⟩
  | _ => exact ⟨_, run_reconfigure rfl hs⟩

/-! ### Both directions -/

/-- **Every interleaving of lock-level steps is a run of `World`** over the events that the steps
commit, each section in one step. Whenever no section is in progress the state is the world of
that run; a reader of the metrics, and a strategy asked to pick, never see anything else. -/
theorem refines_world {es : List (LockEvent σ)} (hrun : run (step env) (quiet w) es = .ok s') :
    ∃ w', run (World.step env) w (gather (step env) commits (quiet w) es) = .ok w' ∧
      Mirrors env s' w' ∧ (s'.writer = none → s'.world = w') ∧
      (0 < s'.readers → s'.world = w') ∧ (∀ x, s'.writer = some (.picking x) → s'.world = w') := by
  obtain ⟨w', hw', hm⟩ := run_simulates (fun _ _ _ _ => mirrors_step) (mirrors_quiet w) hrun
  have hworld := hm.world
  have hfree : s'.writer = none → s'.world = w' := by
    intro hnone
    rw [hnone] at hworld
    exact hworld
  refine ⟨w', hw', hm, hfree, fun hpos => hfree ?_, fun x hx => ?_⟩
  · by_contra hne
    exact absurd (hm.readers hne) (Nat.ne_of_gt hpos)
  · rw [hx] at hworld
    exact hworld

/-- Two calls; the later one obtains the metrics lock first and waits for the strategy lock behind
a call of `strategy_name`. -/
def crossing : List (LockEvent Builtin) :=
  [.call "a:1" none none, .call "b:2" none none, .callMetrics 1, .readName, .unreadName,
    .callStrategy, .pick 0, .assign, .assign, .release, .callMetrics 0, .callStrategy, .pick 0,
    .assign, .assign, .release]

theorem refines_world_crossing :
    ∃ s' w', run (step Env.plain) (quiet (World.ofSize 2 (.roundRobin ⟨0⟩))) crossing = .ok s' ∧
      run (World.step Env.plain) (World.ofSize 2 (.roundRobin ⟨0⟩))
        (gather (step Env.plain) commits (quiet (World.ofSize 2 (.roundRobin ⟨0⟩))) crossing) =
          .ok w' ∧
      s'.world = w' ∧ w'.lb.metrics.map TunnelMetrics.activeConnections = [1, 1] := by
  have hends : ends (step Env.plain)
      (fun s => decide (s.writer.isNone = true ∧
        s.world.lb.metrics.map TunnelMetrics.activeConnections = [1, 1]))
      (quiet (World.ofSize 2 (.roundRobin ⟨0⟩))) crossing = true := by decide
  obtain ⟨s', hrun, hs⟩ := exists_run_of_ends hends
  obtain ⟨hwriter, hactive⟩ := of_decide_eq_true hs
  obtain ⟨w', hw', -, hworld, -⟩ := refines_world hrun
  obtain rfl := hworld (Option.isNone_iff_eq_none.mp hwriter)
  exact ⟨s', s'.world, hrun, hw', rfl, hactive⟩

/-- **Every run of `World` is an interleaving of lock-level steps**, from locks that are free to
locks that are free. The drop of a connection is taken as the two steps it is. -/
theorem realizes_world {es : List (Event σ)} (hes : ∀ e ∈ es, ∀ g, e ≠ .drop g)
    (hrun : run (World.step env) w es = .ok w') :
    ∃ fs, run (step env) (quiet w) fs = .ok (quiet w') := by
  have hevent : ∀ (s : Locked σ) w e w', s = quiet w → (∀ g, e ≠ Event.drop g) →
      World.step env w e = .ok w' →
      ∃ fs s', run (step env) s fs = .ok s' ∧ s' = quiet w' := by
    rintro s w e w' rfl he hstep
    obtain ⟨fs, hfs⟩ := realizes_event he hstep
    exact ⟨fs, _, hfs, rfl⟩
  obtain ⟨fs, s', hfs, rfl⟩ := run_realizes hevent rfl hes hrun
  exact ⟨fs, hfs⟩

/-- A connection whose drop finds the lock taken, and a removal after it. -/
theorem realizes_world_contended :
    ∃ w' fs, run (World.step Env.plain) (World.ofSize 2 (Builtin.roundRobin ⟨0⟩))
        (Event.connecting 0 ++ [.dropCheck 0, .dropWrite 0 false, .removeBackend 0]) = .ok w' ∧
      w'.tags = [1] ∧
      run (step Env.plain) (quiet (World.ofSize 2 (Builtin.roundRobin ⟨0⟩))) fs =
        .ok (quiet w') := by
  have hends : ends (World.step Env.plain) (fun w => decide (w.tags = [1]))
      (World.ofSize 2 (Builtin.roundRobin ⟨0⟩))
      (Event.connecting 0 ++ [.dropCheck 0, .dropWrite 0 false, .removeBackend 0]) = true := by
    decide
  obtain ⟨w', hrun, hw⟩ := exists_run_of_ends hends
  obtain ⟨fs, hfs⟩ := realizes_world (by simp [Event.connecting]) hrun
  exact ⟨w', fs, hrun, of_decide_eq_true hw, hfs⟩

end Locked

end RotaLb
