import RotaLb.World

/-!
# What One Event Does

The inversion of `World.step`: `Effect env w e w'` lists every way in which event `e` can
lead from `w` to `w'`, with what is known at that point. The invariants of the later
modules are proved by cases on it and never unfold the step function.

## Main results

* `step_effect`: **every step is one of the listed effects.**
* `step_log`: **the log only grows**, by entries that name the event behind them.
-/

namespace RotaLb

open Rust StepSystem

variable {σ : Type}

/-- The event lets a running dial or drop go on. -/
def Event.onTask : Event σ → Bool
  | .attempted .. | .woke _ | .lockMetrics _ | .lockStrategy _ | .cancel _ | .drop _
  | .dropCheck _ | .dropWrite .. => true
  | _ => false

namespace World

/-- The index a removal event removes at, if it finds its backend. -/
def removalIndex (w : World σ) : Event σ → Option ℕ
  | .removeBackend index => some index
  | .removeBackendById id => w.lb.ids.findIdx? (· = some id)
  | .removeBackendByPtr ptr => w.lb.backends.findIdx? (·.ptr = ptr)
  | _ => none

/-- The world after a removal at `index`. -/
def afterLeave (w : World σ) (index : ℕ) (b : Backend) : World σ :=
  { w with
    lb := { w.lb with
      generation := w.lb.generation + 1
      backends := w.lb.backends.eraseIdx index
      ids := w.lb.ids.eraseIdx index
      metrics := w.lb.metrics.eraseIdx index }
    epoch := w.epoch + 1
    drops := w.drops.map (Dropping.shift index)
    log := w.log ++ [.left b.tag] }

/-- The world after all backends were replaced. -/
def afterReplace (w : World σ) (ptrs : List ℕ) (strategy : Option σ) : World σ :=
  { w with
    lb := { w.lb with
      generation := w.lb.generation + 1
      backends := tagFrom w.fresh ptrs
      ids := List.replicate (tagFrom w.fresh ptrs).length none
      metrics := List.replicate (tagFrom w.fresh ptrs).length default
      strategy := strategy.getD w.lb.strategy }
    fresh := w.fresh + ptrs.length
    epoch := w.epoch + 1
    drops := w.drops.map (Dropping.shift 0)
    log := w.log ++ w.lb.backends.map (fun b => .left b.tag)
      ++ (tagFrom w.fresh ptrs).map fun b => .entered b.tag none default }

/-- The world after a dial was routed to slot `idx`. -/
def afterRoute (w : World σ) (idx : ℕ) (strategy : σ) (d : Dial) : World σ :=
  { w with
    lb := { w.lb with metrics := w.lb.metrics.modify idx LoadBalancer.countDial, strategy }
    dials := w.dials ++ [d]
    log := w.log ++ [.routed d.owner] }

/-- The metrics of slot `idx` are rewritten. -/
def onMetrics (w : World σ) (idx : ℕ) (f : TunnelMetrics → TunnelMetrics) : World σ :=
  { w with lb := { w.lb with metrics := w.lb.metrics.modify idx f } }

/-- The strategy is in another state. -/
def onStrategy (w : World σ) (strategy : σ) : World σ :=
  { w with lb := { w.lb with strategy } }

/-- Every way in which an event leads to a next world. -/
inductive Effect [BalanceStrategy σ] (env : Env) (w : World σ) : Event σ → World σ → Prop
  /-- A refused dial, or a reconfiguration that found nothing to do. -/
  | idle {e : Event σ} (he : e.onTask = false)
      (hnone : ∀ index, w.removalIndex e = some index → w.lb.backends.length ≤ index) :
      Effect env w e w
  | routed {addr : String} {timeout : Option Duration} {policy : Option RetryPolicy} {draw idx : ℕ}
      {b : Backend} {strategy : σ} {d : Dial}
      (haddr : validateDialAddr addr = .ok ())
      (hpick : BalanceStrategy.pick env draw w.lb.strategy ⟨addr, w.lb.metrics⟩ =
        .ok (idx, strategy))
      (hb : w.lb.backends[idx]? = some b) (hm : idx < w.lb.metrics.length)
      (howner : d.owner = b.tag) (hindex : d.index = idx) (hgen : d.gen = w.lb.generation)
      (hphase : d.phase = .awaitDial 1) :
      Effect env w (.start addr timeout policy draw) (w.afterRoute idx strategy d)
  | moved {e : Event σ} {k : ℕ} {d : Dial} {phase : Phase}
      (he : (∃ outcome elapsed draw, e = .attempted k outcome elapsed draw) ∨ e = .woke k)
      (hd : w.dials[k]? = some d)
      (hold : d.phase.settled = false) (hnew : phase.settled = false) :
      Effect env w e (w.goto k d phase)
  | succeeded {k : ℕ} {d : Dial} (hd : w.dials[k]? = some d) (hphase : d.phase = .successMetrics) :
      Effect env w (.lockMetrics k)
        ((w.onMetrics d.index LoadBalancer.recordSuccess).goto k d .successStrategy)
  | errored {k : ℕ} {d : Dial} {err : Error} (hd : w.dials[k]? = some d)
      (hphase : d.phase = .errorMetrics err) :
      Effect env w (.lockMetrics k)
        ((w.onMetrics d.index LoadBalancer.recordError).goto k d (.errorStrategy err))
  | connected {k : ℕ} {d : Dial} {strategy : σ} (hd : w.dials[k]? = some d)
      (hphase : d.phase = .successStrategy)
      (hreport : BalanceStrategy.reportSuccess w.lb.strategy d.index = .ok strategy) :
      Effect env w (.lockStrategy k)
        { w.onStrategy strategy with
          dials := w.dials.eraseIdx k
          guards := w.guards ++ [⟨⟨d.index, d.gen⟩, d.owner, w.epoch⟩] }
  | returned {k : ℕ} {d : Dial} {err : Error} {strategy : σ} (hd : w.dials[k]? = some d)
      (hphase : d.phase = .errorStrategy err)
      (hreport : BalanceStrategy.reportError w.lb.strategy d.index = .ok strategy) :
      Effect env w (.lockStrategy k)
        { w.onStrategy strategy with dials := w.dials.eraseIdx k }
  | cancelled {k : ℕ} {d : Dial} (hd : w.dials[k]? = some d) :
      Effect env w (.cancel k) (w.cancel k d)
  | dropped {g : ℕ} {h : Held} (hh : w.guards[g]? = some h)
      (hgen : w.lb.generation = h.guard.genAtCreation) :
      Effect env w (.drop g)
        ({ w with guards := w.guards.eraseIdx g }.settle h.guard h.owner)
  | stale {e : Event σ} {g : ℕ} {h : Held} (he : e = .drop g ∨ e = .dropCheck g)
      (hh : w.guards[g]? = some h) (hgen : w.lb.generation ≠ h.guard.genAtCreation) :
      Effect env w e
        { w with guards := w.guards.eraseIdx g, log := w.log ++ [.leaked h.owner .stale] }
  | checked {g : ℕ} {h : Held} (hh : w.guards[g]? = some h)
      (hgen : w.lb.generation = h.guard.genAtCreation) :
      Effect env w (.dropCheck g)
        { w with
          guards := w.guards.eraseIdx g
          drops := w.drops ++ [⟨h.guard, h.owner, h.epoch ≠ w.epoch⟩] }
  | written {d : ℕ} {p : Dropping} (hp : w.drops[d]? = some p) :
      Effect env w (.dropWrite d true)
        ({ w with drops := w.drops.eraseIdx d }.settle p.guard p.owner)
  | contended {d : ℕ} {p : Dropping} (hp : w.drops[d]? = some p) :
      Effect env w (.dropWrite d false)
        { w with drops := w.drops.eraseIdx d, log := w.log ++ [.leaked p.owner .contended] }
  | entered {e : Event σ} {id : Option String} {ptr : ℕ} (hd : w.dials = [])
      (he : (e = .addBackend ptr ∧ id = none) ∨
        ∃ name, e = .addBackendWithId name ptr ∧ id = some name) :
      Effect env w e (w.added id (w.lb.pushBackend id ⟨w.fresh, ptr⟩))
  | left {e : Event σ} {index : ℕ} {b : Backend} (hd : w.dials = [])
      (he : w.removalIndex e = some index) (hb : w.lb.backends[index]? = some b) :
      Effect env w e (w.afterLeave index b)
  | replaced {ptrs : List ℕ} {strategy : Option σ} (hd : w.dials = []) (hne : ptrs ≠ []) :
      Effect env w (.replaceBackends ptrs strategy) (w.afterReplace ptrs strategy)
  | drained {index : ℕ} {b : Backend} (hd : w.dials = []) (hb : w.lb.backends[index]? = some b) :
      Effect env w (.drainBackend index)
        { w.onMetrics index (fun m => { m with recentErrors := u32Max }) with
          log := w.log ++ [.drained b.tag] }
  | undrained {index : ℕ} (hd : w.dials = []) (hdrain : w.lb.isDraining index = true) :
      Effect env w (.undrainBackend index)
        { w.onMetrics index (fun m => { m with recentErrors := 0 }) with
          log := w.log ++ (w.tags[index]?.map Entry.undrained).toList }
  | strategySet {strategy : σ} (hd : w.dials = []) :
      Effect env w (.setStrategy strategy) (w.onStrategy strategy)

/-! ### Inversion of the combinators -/

/-- An event on an item finds the item. -/
theorem onItem_eq_ok {α : Type} {l : List α} {k : ℕ} {f : α → Except Fault (World σ)}
    {w' : World σ} (h : onItem l k f = .ok w') : ∃ a, l[k]? = some a ∧ f a = .ok w' := by
  unfold onItem at h
  cases ha : l[k]? with
  | none => simp [ha] at h
  | some a =>
      rw [ha] at h
      exact ⟨a, rfl, h⟩

/-- A reconfiguration runs while no dial is in progress. -/
theorem exclusive_eq_ok {w w' : World σ} {r : Except Fault (World σ)}
    (h : w.exclusive r = .ok w') : w.dials = [] ∧ r = .ok w' := by
  unfold exclusive at h
  split at h
  · exact ⟨List.isEmpty_iff.mp ‹_›, h⟩
  · cases h

/-! ### Inversion of the events -/

/-- A started dial was refused or routed. -/
theorem start_effect [BalanceStrategy σ] {env : Env} {w w' : World σ} {addr : String}
    {timeout : Option Duration} {policy : Option RetryPolicy} {draw : ℕ}
    (h : w.start env addr timeout policy draw = .ok w') :
    Effect env w (.start addr timeout policy draw) w' := by
  unfold start LoadBalancer.beginDial at h
  cases hv : validateDialAddr addr with
  | error e =>
      simp only [hv, Except.ok.injEq] at h
      exact h ▸ .idle rfl nofun
  | ok u =>
      simp only [hv] at h
      by_cases hempty : w.lb.backends.isEmpty
      · simp only [hempty, if_true, Except.ok.injEq] at h
        exact h ▸ .idle rfl nofun
      · simp only [hempty, Bool.false_eq_true, if_false] at h
        split at h
        · cases h
        · rename_i hbegun
          obtain ⟨⟨idx, lb⟩, -, hrest⟩ := bind_eq_ok.mp hbegun
          obtain ⟨b, -, hrest⟩ := bind_eq_ok.mp hrest
          cases hrest
        · rename_i idx b gen lb hbegun
          obtain ⟨⟨i, lb'⟩, hpick, hrest⟩ := bind_eq_ok.mp hbegun
          obtain ⟨b', hb, hrest⟩ := bind_eq_ok.mp hrest
          obtain ⟨⟨j, strategy⟩, hp, hrest'⟩ := bind_eq_ok.mp hpick
          obtain ⟨metrics, hm, hrest'⟩ := bind_eq_ok.mp hrest'
          obtain ⟨hlt, rfl⟩ := Vec.modify_eq_ok.mp hm
          cases hrest'
          cases hrest
          cases h
          exact .routed hv hp (Vec.get_eq_ok.mp hb) hlt rfl rfl rfl rfl

/-- What a removal returned: nothing found, or the backend at the index gone from all three
vectors. -/
theorem removeBackend_cases {lb : LoadBalancer σ} {index : ℕ} {done : Done σ Bool}
    (h : lb.removeBackend index = .ok done) :
    (done = { value := false, lb } ∧ lb.backends.length ≤ index) ∨
      ∃ b, lb.backends[index]? = some b ∧
        done = { value := true
                 lb := { lb with
                   generation := lb.generation + 1
                   backends := lb.backends.eraseIdx index
                   ids := lb.ids.eraseIdx index
                   metrics := lb.metrics.eraseIdx index }
                 shutdown := [b] } := by
  unfold LoadBalancer.removeBackend at h
  split at h
  · exact .inl ⟨(Except.ok.inj h).symm, ‹_›⟩
  · right
    obtain ⟨⟨b, bs⟩, hb, h⟩ := bind_eq_ok.mp h
    obtain ⟨⟨i, is⟩, hi, h⟩ := bind_eq_ok.mp h
    obtain ⟨⟨m, ms⟩, hm, h⟩ := bind_eq_ok.mp h
    obtain ⟨hget, rfl⟩ := Vec.remove_eq_ok.mp hb
    obtain ⟨-, rfl⟩ := Vec.remove_eq_ok.mp hi
    obtain ⟨-, rfl⟩ := Vec.remove_eq_ok.mp hm
    exact ⟨b, hget, (Except.ok.inj h).symm⟩

/-- A removal event found nothing or removed at its index. -/
theorem removed_effect [BalanceStrategy σ] {env : Env} {w w' : World σ} {e : Event σ} {index : ℕ}
    {r : Except Panic (Done σ Bool)} (hd : w.dials = []) (htask : e.onTask = false)
    (h : w.removed index r = .ok w')
    (hr : w.removalIndex e = none ∧ r = .ok { value := false, lb := w.lb } ∨
      w.removalIndex e = some index ∧ r = w.lb.removeBackend index) :
    Effect env w e w' := by
  rcases hr with ⟨he, rfl⟩ | ⟨he, rfl⟩
  · simp only [removed, Bool.false_eq_true, if_false, Except.ok.injEq] at h
    exact h ▸ .idle htask (by simp [he])
  · cases hdone : w.lb.removeBackend index with
    | error p => simp [removed, hdone] at h
    | ok done =>
        rcases removeBackend_cases hdone with ⟨rfl, hlen⟩ | ⟨b, hb, rfl⟩
        · simp only [removed, hdone, Bool.false_eq_true, if_false, Except.ok.injEq] at h
          refine h ▸ .idle htask fun i hi => ?_
          rwa [← Option.some.inj (he.symm.trans hi)]
        · simp only [removed, hdone, if_true, Except.ok.injEq] at h
          subst h
          exact .left hd he hb

/-- **Every step is one of the listed effects.** -/
theorem step_effect [BalanceStrategy σ] {env : Env} {w w' : World σ} {e : Event σ}
    (h : w.step env e = .ok w') : Effect env w e w' := by
  cases e with
  | start addr timeout policy draw => exact start_effect h
  | attempted k outcome elapsed draw =>
      obtain ⟨d, hd, hw⟩ := onItem_eq_ok h
      unfold attempted at hw
      split at hw
      · rename_i n hn
        split at hw
        · rename_i phase hphase
          cases hw
          refine .moved (.inl ⟨_, _, _, rfl⟩) hd (by rw [hn]; rfl) ?_
          unfold afterAttempt at hphase
          obtain ⟨r, -, rfl⟩ := Option.map_eq_some_iff.mp hphase
          split
          · rfl
          · split <;> rfl
        · cases hw
      · cases hw
  | woke k =>
      obtain ⟨d, hd, hw⟩ := onItem_eq_ok h
      unfold woke at hw
      split at hw
      · rename_i n hn
        split at hw
        · cases hw
          exact .moved (.inr rfl) hd (by rw [hn]; rfl) rfl
        · cases hw
      · cases hw
  | lockMetrics k =>
      obtain ⟨d, hd, hw⟩ := onItem_eq_ok h
      unfold lockMetrics at hw
      split at hw
      · cases hw
        exact .succeeded hd ‹_›
      · cases hw
        exact .errored hd ‹_›
      · cases hw
  | lockStrategy k =>
      obtain ⟨d, hd, hw⟩ := onItem_eq_ok h
      unfold lockStrategy LoadBalancer.reportSuccess LoadBalancer.reportError at hw
      split at hw
      · split at hw
        · rename_i lb hr
          obtain ⟨s, hs, hlb⟩ := bind_eq_ok.mp hr
          cases hlb
          cases hw
          exact .connected hd ‹_› hs
        · cases hw
      · split at hw
        · rename_i lb hr
          obtain ⟨s, hs, hlb⟩ := bind_eq_ok.mp hr
          cases hlb
          cases hw
          exact .returned hd ‹_› hs
        · cases hw
      · cases hw
  | cancel k =>
      obtain ⟨d, hd, hw⟩ := onItem_eq_ok h
      cases hw
      exact .cancelled hd
  | drop g =>
      obtain ⟨x, hx, hw⟩ := onItem_eq_ok h
      simp only [World.drop, ActiveConnectionGuard.unchanged, decide_eq_true_eq,
        Except.ok.injEq] at hw
      split at hw
      · exact hw ▸ .dropped hx ‹_›
      · exact hw ▸ .stale (.inl rfl) hx ‹_›
  | dropCheck g =>
      obtain ⟨x, hx, hw⟩ := onItem_eq_ok h
      simp only [World.dropCheck, ActiveConnectionGuard.unchanged, decide_eq_true_eq,
        Except.ok.injEq] at hw
      split at hw
      · exact hw ▸ .checked hx ‹_›
      · exact hw ▸ .stale (.inr rfl) hx ‹_›
  | dropWrite d free =>
      obtain ⟨p, hp, hw⟩ := onItem_eq_ok h
      cases hw
      cases free with
      | true => exact .written hp
      | false => exact .contended hp
  | addBackend ptr =>
      obtain ⟨hd, hw⟩ := exclusive_eq_ok h
      cases hw
      exact .entered hd (.inl ⟨rfl, rfl⟩)
  | addBackendWithId id ptr =>
      obtain ⟨hd, hw⟩ := exclusive_eq_ok h
      cases hw
      exact .entered hd (.inr ⟨id, rfl, rfl⟩)
  | removeBackend index =>
      obtain ⟨hd, hw⟩ := exclusive_eq_ok h
      exact removed_effect hd rfl hw (.inr ⟨rfl, rfl⟩)
  | removeBackendById id =>
      obtain ⟨hd, hw⟩ := exclusive_eq_ok h
      refine removed_effect hd rfl hw ?_
      unfold LoadBalancer.removeBackendById
      cases hf : w.lb.ids.findIdx? (· = some id) with
      | none => exact .inl ⟨hf, rfl⟩
      | some idx => exact .inr ⟨hf, rfl⟩
  | removeBackendByPtr ptr =>
      obtain ⟨hd, hw⟩ := exclusive_eq_ok h
      refine removed_effect hd rfl hw ?_
      unfold LoadBalancer.removeBackendByPtr
      cases hf : w.lb.backends.findIdx? (·.ptr = ptr) with
      | none => exact .inl ⟨hf, rfl⟩
      | some idx => exact .inr ⟨hf, rfl⟩
  | replaceBackends ptrs strategy =>
      obtain ⟨hd, hw⟩ := exclusive_eq_ok h
      cases hw
      cases ptrs with
      | nil => exact .idle rfl nofun
      | cons ptr ptrs => exact .replaced hd (List.cons_ne_nil _ _)
  | drainBackend index =>
      obtain ⟨hd, hw⟩ := exclusive_eq_ok h
      simp only [marked, LoadBalancer.drainBackend, Except.ok.injEq] at hw
      split at hw
      · exact hw ▸ .idle rfl nofun
      · rename_i hlt
        have hb := List.getElem?_eq_getElem (Nat.lt_of_not_le hlt)
        rw [tags, List.getElem?_map, hb] at hw
        exact hw ▸ .drained hd hb
  | undrainBackend index =>
      obtain ⟨hd, hw⟩ := exclusive_eq_ok h
      simp only [marked, LoadBalancer.undrainBackend, Except.ok.injEq] at hw
      split at hw
      · exact hw ▸ .undrained hd ‹_›
      · exact hw ▸ .idle rfl nofun
  | setStrategy strategy =>
      obtain ⟨hd, hw⟩ := exclusive_eq_ok h
      cases hw
      exact .strategySet hd

/-- A dial whose pick and whose row are known. -/
theorem start_of_pick [BalanceStrategy σ] {env : Env} {w : World σ} {addr : String}
    (timeout : Option Duration) (policy : Option RetryPolicy) {draw row : ℕ} {strategy : σ}
    {b : Backend} (haddr : validateDialAddr addr = .ok ())
    (hpick : BalanceStrategy.pick env draw w.lb.strategy ⟨addr, w.lb.metrics⟩ =
      .ok (row, strategy)) (hrow : row < w.lb.metrics.length)
    (hb : w.lb.backends[row]? = some b) :
    w.step env (.start addr timeout policy draw) = .ok (w.afterRoute row strategy {
      owner := b.tag, index := row, gen := w.lb.generation
      timeout := timeout.or w.lb.dialTimeout
      policy := policy.or w.lb.retryPolicy
      phase := .awaitDial 1 }) := by
  have hne : w.lb.backends.isEmpty = false := by
    cases hbs : w.lb.backends with
    | nil => simp [hbs] at hb
    | cons => rfl
  change w.start env addr timeout policy draw = _
  delta start
  simp [LoadBalancer.beginDial, haddr, hne, LoadBalancer.pickBackend, hpick,
    Vec.modify, hrow, Vec.get, hb, bind, Except.bind, pure, Except.pure, afterRoute]

/-! ### What an event records -/

/-- The event decrements for a guard of the backend `owner`, at an index whose slot holds the
backend `slot`, or no backend. -/
inductive Decrements (w : World σ) : Event σ → ℕ → Option ℕ → Prop
  | drop {g : ℕ} {h : Held} {slot : Option ℕ} (hh : w.guards[g]? = some h)
      (hgen : w.lb.generation = h.guard.genAtCreation) (hslot : w.tags[h.guard.index]? = slot) :
      Decrements w (.drop g) h.owner slot
  | write {d : ℕ} {p : Dropping} {slot : Option ℕ} (hp : w.drops[d]? = some p)
      (hslot : w.tags[p.guard.index]? = slot) : Decrements w (.dropWrite d true) p.owner slot

/-- The event accounts for the entry. -/
def Records (w : World σ) (e : Event σ) : Entry → Prop
  | .entered _ _ seed => seed = default
  | .left _ | .routed _ => True
  | .decremented owner t => w.Decrements e owner (some t)
  | .leaked owner .missed => w.Decrements e owner none
  | .leaked _ .stale => (∃ g, e = .drop g) ∨ ∃ g, e = .dropCheck g
  | .leaked owner .misdirected => ∃ t, t ≠ owner ∧ w.Decrements e owner (some t)
  | .leaked _ .contended => ∃ d free, e = .dropWrite d free
  | .leaked _ .cancelled => ∃ k, e = .cancel k
  | .drained _ => ∃ index, e = .drainBackend index
  | .undrained _ => ∃ index, e = .undrainBackend index

/-- What the second half of a drop records. -/
theorem mem_settleEntries {w : World σ} {g : ActiveConnectionGuard} {owner : ℕ} {x : Entry}
    (hx : x ∈ w.settleEntries g owner) :
    (∃ t, w.tags[g.index]? = some t ∧ x = .decremented owner t) ∨
      (∃ t, w.tags[g.index]? = some t ∧ t ≠ owner ∧ x = .leaked owner .misdirected) ∨
      (w.tags[g.index]? = none ∧ x = .leaked owner .missed) := by
  rw [settleEntries] at hx
  split at hx
  · rename_i t ht
    split at hx
    · exact .inl ⟨t, ht, List.mem_singleton.mp hx⟩
    · rcases List.mem_pair.mp hx with hx | hx
      · exact .inl ⟨t, ht, hx⟩
      · exact .inr (.inl ⟨t, ht, ‹_›, hx⟩)
  · exact .inr (.inr ⟨‹_›, List.mem_singleton.mp hx⟩)

/-- The second half of a drop records its decrement, and its loss. -/
theorem settleEntries_records {w base : World σ} {e : Event σ} {g : ActiveConnectionGuard}
    {owner : ℕ} (hdec : w.Decrements e owner base.tags[g.index]?) :
    ∀ x ∈ base.settleEntries g owner, w.Records e x := by
  intro x hx
  rcases mem_settleEntries hx with ⟨t, ht, rfl⟩ | ⟨t, ht, hne, rfl⟩ | ⟨ht, rfl⟩
  · rw [ht] at hdec
    exact hdec
  · rw [ht] at hdec
    exact ⟨t, hne, hdec⟩
  · rw [ht] at hdec
    exact hdec

/-- **The log only grows**, by entries that the event accounts for. -/
theorem step_log [BalanceStrategy σ] {env : Env} {w w' : World σ} {e : Event σ}
    (hs : w.step env e = .ok w') : ∃ es, w'.log = w.log ++ es ∧ ∀ x ∈ es, w.Records e x := by
  cases step_effect hs with
  | idle | moved | succeeded | errored | connected | returned | checked | strategySet =>
      exact ⟨[], (List.append_nil _).symm, fun x hx => absurd hx List.not_mem_nil⟩
  | routed | contended | entered | left | drained => exact ⟨_, rfl, by simp [Records]⟩
  | cancelled =>
      refine ⟨_, rfl, ?_⟩
      split <;> simp [Records]
  | dropped hh hgen =>
      exact ⟨_, rfl, settleEntries_records (.drop hh hgen rfl)⟩
  | written hp => exact ⟨_, rfl, settleEntries_records (.write hp rfl)⟩
  | stale he => exact ⟨_, rfl, by rcases he with rfl | rfl <;> simp [Records]⟩
  | replaced =>
      refine ⟨_, List.append_assoc _ _ _, fun x hx => ?_⟩
      rcases List.mem_append.mp hx with hx | hx
      · obtain ⟨b, -, rfl⟩ := List.mem_map.mp hx
        trivial
      · obtain ⟨b, -, rfl⟩ := List.mem_map.mp hx
        rfl
  | undrained =>
      refine ⟨_, rfl, fun x hx => ?_⟩
      obtain ⟨u, -, rfl⟩ := Option.map_eq_some_iff.mp (Option.mem_toList.mp hx)
      exact ⟨_, rfl⟩

/-- An entry of the log was there before the event or is accounted for by it. -/
theorem mem_log_of_step [BalanceStrategy σ] {env : Env} {w w' : World σ} {e : Event σ} {x : Entry}
    (hs : w.step env e = .ok w') (hx : x ∈ w'.log) : x ∈ w.log ∨ w.Records e x := by
  obtain ⟨es, hlog, hes⟩ := step_log hs
  rw [hlog] at hx
  exact (List.mem_append.mp hx).imp_right (hes x)

end World

end RotaLb
