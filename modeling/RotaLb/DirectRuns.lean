import RotaLb.Accounting

/-!
# Runs with Drops in One Step

The interleavings in which a guard's drop runs as a whole and obtains the lock. There the
only events that lose a decrement are the cancellation of a dial and the drop of a guard
whose generation has passed, and the counts are exact.

## Main results

* `step_leaks`, `run_leaks`: **the leaks of a backend are the events that lose a decrement of
  it**.
* `run_leaks_of_calm`: without cancellations these are the drops of connections made in an earlier
  epoch.
* `counts_exact`: **exact connection accounting** in every interleaving of dials, drops and
  reconfigurations, with what follows from it: no decrement saturates, none touches another
  backend's count, and no count is below the number of live connections.
-/

namespace RotaLb

open Rust StepSystem Ledger

variable {σ : Type}

/-! ### Direct and calm events -/

/-- The event does not take a drop apart. -/
def Event.Direct : Event σ → Prop
  | .dropCheck _ | .dropWrite _ _ => False
  | _ => True

/-- The event neither takes a drop apart nor cancels a dial. -/
def Event.Calm : Event σ → Prop
  | .dropCheck _ | .dropWrite _ _ | .cancel _ => False
  | _ => True

/-- A calm event is direct. -/
theorem Event.Calm.direct {e : Event σ} (h : e.Calm) : e.Direct := by
  cases e <;> first | exact h | trivial

namespace World

/-- The event loses a decrement of the backend with tag `t`: it cancels a dial that still
owes it, or drops a guard whose generation has passed. -/
def loses (w : World σ) (t : ℕ) : Event σ → Bool
  | .cancel k => w.dials[k]?.any (Dial.owes t)
  | .drop g => w.guards[g]?.any fun h =>
      h.owner = t && decide (w.lb.generation ≠ h.guard.genAtCreation)
  | _ => false

/-- The event drops a connection to the backend with tag `t` that was made in another epoch: the
generation has changed since. -/
def dropsLate (t : ℕ) (w : World σ) : Event σ → Bool
  | .drop g => w.guards[g]?.any fun h => h.owner = t && decide (h.epoch ≠ w.epoch)
  | _ => false

/-- Below `2 ^ 64` changes of the generation, drops in one step are safe. -/
theorem safeWrite_of_direct {w : World σ} {e : Event σ} (hp : Placed w) (hb : w.epoch < 2 ^ 64)
    (he : e.Direct) : SafeWrite w e := by
  cases e with
  | drop g => exact fun h hh hgen => hp.epoch_eq hb (List.mem_of_getElem? hh) hgen
  | dropWrite => exact he.elim
  | _ => trivial

/-- No drop is ever left half done. -/
theorem step_drops_nil [BalanceStrategy σ] {env : Env} {w w' : World σ} {e : Event σ}
    (he : e.Direct) (h : w.drops = []) (hs : w.step env e = .ok w') : w'.drops = [] := by
  cases step_effect hs with
  | checked | written | contended => exact he.elim
  | left | replaced => exact congrArg (List.map _) h
  | _ => exact h

/-- The leaks after new entries. -/
theorem leaks_append {w w' : World σ} {es : List Entry} (hlog : w'.log = w.log ++ es) (t : ℕ) :
    w'.leaks t = w.leaks t + es.countP (Entry.leakOf t) := by
  rw [leaks, hlog, List.countP_append, leaks]

/-- No new entry is a leak. -/
theorem leaks_eq {w w' : World σ} {es : List Entry} (hlog : w'.log = w.log ++ es) {t : ℕ}
    (hes : ∀ e ∈ es, e.leakOf t = false) : w'.leaks t = w.leaks t := by
  have hzero : es.countP (Entry.leakOf t) = 0 :=
    List.countP_eq_zero.mpr fun e he => by simp [hes e he]
  rw [leaks_append hlog, hzero, Nat.add_zero]

/-- A calm event loses a decrement only by a drop in one step. -/
theorem leaked_of_calm {w : World σ} {e : Event σ} (hcalm : e.Calm) {o : ℕ} {c : Cause}
    (h : w.Records e (.leaked o c)) : ∃ g, e = .drop g := by
  have hdrop : ∀ slot, w.Decrements e o slot → ∃ g, e = .drop g := by
    intro slot hdec
    cases hdec with
    | drop => exact ⟨_, rfl⟩
    | write => exact hcalm.elim
  cases c with
  | stale =>
      rcases h with hg | ⟨g, rfl⟩
      · exact hg
      · exact hcalm.elim
  | missed => exact hdrop _ h
  | misdirected =>
      obtain ⟨t, -, hdec⟩ := h
      exact hdrop _ hdec
  | contended =>
      obtain ⟨d, free, rfl⟩ := h
      exact hcalm.elim
  | cancelled =>
      obtain ⟨k, rfl⟩ := h
      exact hcalm.elim

/-- A calm event other than a drop loses nothing. -/
theorem step_leaks_of_calm [BalanceStrategy σ] {env : Env} {w w' : World σ} {e : Event σ}
    (hs : w.step env e = .ok w') (hcalm : e.Calm) (hdrop : ∀ g, e ≠ .drop g) (t : ℕ) :
    w'.leaks t = w.leaks t := by
  obtain ⟨es, hlog, hes⟩ := step_log hs
  refine leaks_eq hlog fun x hx => ?_
  cases x with
  | leaked o c =>
      obtain ⟨g, rfl⟩ := leaked_of_calm hcalm (hes _ hx)
      exact absurd rfl (hdrop g)
  | _ => rfl

/-- A cancelled dial is lost unless its failure was recorded. -/
theorem leaks_cancel {w : World σ} {k : ℕ} {d : Dial} (hd : w.dials[k]? = some d) (t : ℕ) :
    (w.cancel k d).leaks t = w.leaks t + if w.loses t (.cancel k) then 1 else 0 := by
  rw [leaks_append (w := w) rfl, loses, hd, Option.any_some, Dial.owes]
  cases d.phase.settled <;> simp [Entry.leakOf]

/-- A drop in one step is lost exactly when its generation has passed. -/
theorem leaks_drop {w : World σ} (hp : Placed w) (hb : w.epoch < 2 ^ 64) {g : ℕ} {h : Held}
    (hh : w.guards[g]? = some h) (t : ℕ) :
    (w.drop g h).leaks t = w.leaks t + if w.loses t (.drop g) then 1 else 0 := by
  have hmem := List.mem_of_getElem? hh
  rw [loses, hh, Option.any_some]
  simp only [World.drop, ActiveConnectionGuard.unchanged, decide_eq_true_eq]
  split
  · rename_i hgen
    have hslot : w.tags[h.guard.index]? = some h.owner :=
      (hp.guards h hmem).2.2 (hp.epoch_eq hb hmem hgen)
    rw [settle, settleEntries_of_slot (w := { w with guards := w.guards.eraseIdx g }) hslot,
      leaks_append (w := w) rfl]
    simp [Entry.leakOf, show w.lb.generation = h.guard.genAtCreation from hgen]
  · rename_i hgen
    rw [leaks_append (w := w) rfl]
    simp [Entry.leakOf, show w.lb.generation ≠ h.guard.genAtCreation from hgen]

/-- **The leaks of a backend grow exactly by the events that lose a decrement of it**, as
long as drops run in one step. -/
theorem step_leaks [BalanceStrategy σ] {env : Env} {w w' : World σ} {e : Event σ}
    (hp : Placed w) (hb : w.epoch < 2 ^ 64) (he : e.Direct) (hs : w.step env e = .ok w') (t : ℕ) :
    w'.leaks t = w.leaks t + if w.loses t e then 1 else 0 := by
  cases e with
  | cancel k =>
      obtain ⟨d, hd, hw⟩ := onItem_eq_ok hs
      cases hw
      exact leaks_cancel hd t
  | drop g =>
      obtain ⟨h, hh, hw⟩ := onItem_eq_ok hs
      cases hw
      exact leaks_drop hp hb hh t
  | dropCheck | dropWrite => exact he.elim
  | _ => exact step_leaks_of_calm hs trivial (fun _ => nofun) t

/-! ### Whole runs -/

/-- **In a run of direct events the counts are exact** and no drop is half done. -/
theorem run_direct [BalanceStrategy σ] {env : Env} {w₀ w : World σ} {es : List (Event σ)}
    (h₀ : w₀.Initial) (hes : ∀ e ∈ es, e.Direct) (hb : Throughout (step env) Bounded w₀ es)
    (hrun : run (step env) w₀ es = .ok w) : Exact w ∧ w.drops = [] ∧ Bounded w := by
  refine run_invariant_along (I := fun w => Exact w ∧ w.drops = [] ∧ Bounded w) ?_
    ⟨initial_exact h₀, ?_, hb.head⟩ ((along_of_forall hes).and hb.along) hrun
  · rintro w e w' ⟨hexact, hdrops, hbound⟩ ⟨hdirect, hnext⟩ hs
    have hsafe := safeWrite_of_direct hexact.sound.placed hbound.2 hdirect
    exact ⟨step_exact hexact hsafe (hnext w' hs) hs, step_drops_nil hdirect hdrops hs, hnext w' hs⟩
  · obtain ⟨lb, seeds, -, -, rfl⟩ := h₀
    rfl

/-- **The leaks of a backend over a whole run** are the events that lost a decrement of it. -/
theorem run_leaks [BalanceStrategy σ] {env : Env} {w₀ w : World σ} {es : List (Event σ)}
    (h₀ : w₀.Initial) (hes : ∀ e ∈ es, e.Direct) (hb : Throughout (step env) Bounded w₀ es)
    (hrun : run (step env) w₀ es = .ok w) (t : ℕ) :
    w.leaks t = count (step env) (fun w e => w.loses t e) w₀ es := by
  have hstart : w₀.leaks t = 0 := by
    have := initial_load h₀ t
    rw [load] at this
    omega
  have hcount : Sound w ∧ w.leaks t = 0 + count (step env) (fun w e => w.loses t e) w₀ es :=
    run_count (R := fun n w => Sound w ∧ w.leaks t = n)
      (fun n w e w' h hD hs => ⟨step_sound h.1 hs, h.2 ▸ step_leaks h.1.placed hD.2.2 hD.1 hs t⟩)
      ⟨initial_sound h₀, hstart⟩ ((along_of_forall hes).and hb.before) hrun
  rw [hcount.2, Nat.zero_add]

/-- Below `2 ^ 64` changes the generation has changed exactly if the epoch has. -/
theorem Placed.epoch_eq_iff {w : World σ} (hp : Placed w) (hb : w.epoch < 2 ^ 64) {h : Held}
    (hh : h ∈ w.guards) : w.lb.generation = h.guard.genAtCreation ↔ h.epoch = w.epoch := by
  refine ⟨hp.epoch_eq hb hh, fun hepoch => ?_⟩
  rw [hp.generation, (hp.guards h hh).2.1, hepoch]

/-- A calm event loses a decrement exactly if it drops a connection of another epoch. -/
theorem loses_eq_dropsLate {w : World σ} {e : Event σ} (hp : Placed w) (hb : w.epoch < 2 ^ 64)
    (hcalm : e.Calm) (t : ℕ) : w.loses t e = dropsLate t w e := by
  cases e with
  | cancel => exact hcalm.elim
  | drop g =>
      cases hh : w.guards[g]? with
      | none => simp [loses, dropsLate, hh]
      | some h => simp [loses, dropsLate, hh, hp.epoch_eq_iff hb (List.mem_of_getElem? hh)]
  | _ => rfl

/-- **In a run of calm events** the leaks of a backend are the drops of connections made in an
earlier epoch. -/
theorem run_leaks_of_calm [BalanceStrategy σ] {env : Env} {w₀ w : World σ} {es : List (Event σ)}
    (h₀ : w₀.Initial) (hes : ∀ e ∈ es, e.Calm) (hb : Throughout (step env) Bounded w₀ es)
    (hrun : run (step env) w₀ es = .ok w) (t : ℕ) :
    w.leaks t = count (step env) (dropsLate t) w₀ es := by
  rw [run_leaks h₀ (fun e he => (hes e he).direct) hb hrun]
  exact count_congr (I := Sound) (fun _ _ _ h _ hs => step_sound h hs)
    (fun _ _ h hD => loses_eq_dropsLate h.placed hD.2.2 hD.1 t) (initial_sound h₀)
    ((along_of_forall hes).and hb.before)

/-- The load of a backend when no drop is half done. -/
theorem load_of_drops_nil {w : World σ} (h : w.drops = []) (t : ℕ) :
    w.load t = w.inProgress t + w.live t + w.leaks t := by
  have hzero : w.dropping t = 0 := by rw [dropping, h, List.countP_nil]
  rw [load, hzero, Nat.add_zero]

/-! ### Exact accounting -/

/-- The slot of a backend and its metrics, from the index of a party that is placed. -/
theorem Sync.slot {w : World σ} (h : Sync w) {i t : ℕ} (ht : w.tags[i]? = some t) :
    ∃ x m, w.pool.members[i]? = some x ∧ x.tag = t ∧ w.lb.metrics[i]? = some m := by
  obtain ⟨x, hx, hxt⟩ := h.member ht
  have hlt : i < w.lb.metrics.length := by
    rw [h.length.2.2]
    exact (List.getElem?_eq_some_iff.mp hx).1
  exact ⟨x, _, hx, hxt, List.getElem?_eq_getElem hlt⟩

/-- The count of a backend that a party still owes is at least one. -/
theorem Exact.one_le {w : World σ} (h : Exact w) {i t : ℕ} (ht : w.tags[i]? = some t)
    (hload : 0 < w.load t) : ∃ m, w.lb.metrics[i]? = some m ∧ 1 ≤ m.activeConnections.toNat := by
  obtain ⟨x, m, hx, rfl, hm⟩ := h.sound.sync.slot ht
  have heq := balanced_iff.mp h.balanced i x m hx hm
  exact ⟨m, hm, by omega⟩

/-- Rewriting the metrics in the slot of one backend leaves the slots of the others. -/
theorem modify_frame {w : World σ} {i j o t : ℕ} (ho : w.tags[i]? = some o)
    (ht : w.tags[j]? = some t) (hne : t ≠ o) (f : TunnelMetrics → TunnelMetrics) :
    (w.lb.metrics.modify i f)[j]? = w.lb.metrics[j]? := by
  have hij : i ≠ j := fun he => hne (Option.some.inj (ht.symm.trans (he ▸ ho)))
  rw [List.getElem?_modify]
  simp [hij]

/-- The accounts of a world are in order, `late t` connections to the backend with tag `t` having
been dropped after the generation had changed. -/
structure Accounted [BalanceStrategy σ] (env : Env) (late : ℕ → ℕ) (w : World σ) : Prop where
  /-- The count of every slot is its seed, its dials in progress, its live connections and
  its connections dropped after the generation had changed. -/
  exact : ∀ (i : ℕ) (x : Member) (m : TunnelMetrics), w.pool.members[i]? = some x →
    w.lb.metrics[i]? = some m →
    m.activeConnections.toNat = x.seed.activeConnections.toNat + w.inProgress x.tag +
      w.live x.tag + late x.tag
  /-- The decrement of a failed dial does not saturate. -/
  error_pos : ∀ d ∈ w.dials, ∀ err, d.phase = .errorMetrics err →
    ∃ m, w.lb.metrics[d.index]? = some m ∧ 1 ≤ m.activeConnections.toNat
  /-- The decrement of a drop does not saturate. -/
  drop_pos : ∀ h ∈ w.guards, h.guard.unchanged w.lb = true →
    ∃ m, w.lb.metrics[h.guard.index]? = some m ∧ 1 ≤ m.activeConnections.toNat
  /-- A failed dial leaves the slots of other backends alone. -/
  error_frame : ∀ (k : ℕ) (d : Dial) (err : Error) (w' : World σ), w.dials[k]? = some d →
    d.phase = .errorMetrics err → w.step env (.lockMetrics k) = .ok w' →
    ∀ i t : ℕ, w.tags[i]? = some t → t ≠ d.owner → w'.lb.metrics[i]? = w.lb.metrics[i]?
  /-- A drop leaves the slots of other backends alone. -/
  drop_frame : ∀ (g : ℕ) (h : Held) (w' : World σ), w.guards[g]? = some h →
    w.step env (.drop g) = .ok w' →
    ∀ i t : ℕ, w.tags[i]? = some t → t ≠ h.owner → w'.lb.metrics[i]? = w.lb.metrics[i]?
  /-- No count is below the number of live connections. -/
  live_le : ∀ (i : ℕ) (x : Member) (m : TunnelMetrics), w.pool.members[i]? = some x →
    w.lb.metrics[i]? = some m → w.live x.tag ≤ m.activeConnections.toNat

/-- A failed dial decrements the count in the slot of its own backend. -/
theorem error_frame [BalanceStrategy σ] {env : Env} {w w' : World σ} (h : Sound w) {k : ℕ}
    {d : Dial} {err : Error} (hd : w.dials[k]? = some d) (hphase : d.phase = .errorMetrics err)
    (hs : w.step env (.lockMetrics k) = .ok w') {i t : ℕ} (ht : w.tags[i]? = some t)
    (hne : t ≠ d.owner) : w'.lb.metrics[i]? = w.lb.metrics[i]? := by
  obtain ⟨d', hd', hw⟩ := onItem_eq_ok hs
  obtain rfl : d = d' := Option.some.inj (hd.symm.trans hd')
  rw [lockMetrics, hphase] at hw
  cases hw
  exact modify_frame (h.placed.dials d (List.mem_of_getElem? hd)).1 ht hne _

/-- A drop in one step decrements the count in the slot of its own backend, if any. -/
theorem drop_frame [BalanceStrategy σ] {env : Env} {w w' : World σ} (h : Sound w)
    (hb : w.epoch < 2 ^ 64) {g : ℕ} {x : Held} (hx : w.guards[g]? = some x)
    (hs : w.step env (.drop g) = .ok w') {i t : ℕ} (ht : w.tags[i]? = some t) (hne : t ≠ x.owner) :
    w'.lb.metrics[i]? = w.lb.metrics[i]? := by
  have hmem := List.mem_of_getElem? hx
  obtain ⟨x', hx', hw⟩ := onItem_eq_ok hs
  obtain rfl : x = x' := Option.some.inj (hx.symm.trans hx')
  cases hw
  simp only [World.drop, ActiveConnectionGuard.unchanged, decide_eq_true_eq]
  split
  · rename_i hgen
    have hslot := (h.placed.guards x hmem).2.2 (h.placed.epoch_eq hb hmem hgen)
    exact modify_frame hslot ht hne _
  · rfl

/-- **Exact connection accounting.** In every interleaving of dials, drops in one step and
reconfigurations, without cancelled dials and within the bounds of the counters, the
accounts are in order, the late drops being those of connections made in an earlier epoch. -/
theorem counts_exact [BalanceStrategy σ] {env : Env} {w₀ w : World σ} {es : List (Event σ)}
    (h₀ : w₀.Initial) (hes : ∀ e ∈ es, e.Calm) (hb : Throughout (step env) Bounded w₀ es)
    (hrun : run (step env) w₀ es = .ok w) :
    Accounted env (fun t => count (step env) (dropsLate t) w₀ es) w := by
  obtain ⟨hexact, hdrops, hbound⟩ := run_direct h₀ (fun e he => (hes e he).direct) hb hrun
  have hload : ∀ t, w.load t =
      w.inProgress t + w.live t + count (step env) (dropsLate t) w₀ es := fun t => by
    rw [load_of_drops_nil hdrops, run_leaks_of_calm h₀ hes hb hrun]
  have hcount := balanced_iff.mp hexact.balanced
  have hplaced := hexact.sound.placed
  refine ⟨fun i x m hx hm => ?_, fun d hd err hphase => ?_, fun x hx hgen => ?_,
    fun k d err w' hd hphase hs i t => error_frame hexact.sound hd hphase hs,
    fun g x w' hx hs i t => drop_frame hexact.sound hbound.2 hx hs, fun i x m hx hm => ?_⟩
  · rw [hcount i x m hx hm, hload]
    omega
  · refine hexact.one_le (hplaced.dials d hd).1 ?_
    have howes : 0 < w.inProgress d.owner :=
      List.countP_pos_iff.mpr ⟨d, hd, by simp [Dial.owes, hphase, Phase.settled]⟩
    have := hload d.owner
    omega
  · have hepoch := hplaced.epoch_eq hbound.2 hx (of_decide_eq_true hgen)
    refine hexact.one_le ((hplaced.guards x hx).2.2 hepoch) ?_
    have hlive : 0 < w.live x.owner := List.countP_pos_iff.mpr ⟨x, hx, by simp⟩
    have := hload x.owner
    omega
  · have := hcount i x m hx hm
    have := hload x.tag
    omega

/-- A connection to the first of two backends, a failed dial to the second, the removal of
the second, a dial to the first left in progress, and the drop of the connection. -/
def churnRun : List (Event Builtin) :=
  Event.connecting 0 ++ Event.failing 0 ++ [.removeBackend 1, .start "a:1" none none 0, .drop 0]

theorem counts_exact_churnRun :
    ∃ w m, run (step Env.plain) (ofSize 2 (.roundRobin ⟨0⟩)) churnRun = .ok w ∧
      w.lb.metrics[0]? = some m ∧ w.inProgress 0 = 1 ∧ w.live 0 = 0 ∧
      count (step Env.plain) (dropsLate 0) (ofSize 2 (.roundRobin ⟨0⟩)) churnRun = 1 ∧
      m.activeConnections.toNat = 0 + 1 + 0 + 1 ∧ Accounted Env.plain (fun t =>
        count (step Env.plain) (dropsLate t) (ofSize 2 (.roundRobin ⟨0⟩)) churnRun) w := by
  have hends : ends (step Env.plain) (fun w => decide (w.inProgress 0 = 1 ∧ w.live 0 = 0 ∧
      w.pool.members[0]? = some ⟨0, none, default, 2⟩ ∧ w.lb.metrics.length = 1))
      (ofSize 2 (.roundRobin ⟨0⟩)) churnRun = true := by decide
  have hb : Throughout (step Env.plain) Bounded (ofSize 2 (.roundRobin ⟨0⟩)) churnRun := by decide
  have hcalm : ∀ e ∈ churnRun, e.Calm := by
    simp [churnRun, Event.connecting, Event.failing, Event.Calm]
  have hlate : count (step Env.plain) (dropsLate 0) (ofSize 2 (.roundRobin ⟨0⟩)) churnRun = 1 := by
    decide
  obtain ⟨w, hrun, hw⟩ := exists_run_of_ends hends
  obtain ⟨hprogress, hlive, hmember, hlen⟩ := of_decide_eq_true hw
  have haccounted := counts_exact (initial_ofSize Nat.two_pos _) hcalm hb hrun
  obtain ⟨m, hm⟩ : ∃ m, w.lb.metrics[0]? = some m :=
    ⟨_, List.getElem?_eq_getElem (hlen ▸ Nat.one_pos)⟩
  have hcount := haccounted.exact 0 _ m hmember hm
  simp only [hprogress, hlive, hlate] at hcount
  exact ⟨w, m, hrun, hm, hprogress, hlive, hlate, hcount, haccounted⟩

end World

end RotaLb
