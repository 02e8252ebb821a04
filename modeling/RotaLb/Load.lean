import RotaLb.Ledger
import RotaLb.Slots

/-!
# Who Still Counts as a Connection

A dial increments `active_connections` of its backend when the backend is picked, and from
then on exactly one party owes the decrement: the dial, then the connection's guard, then
the guard inside `drop`. `load w t` counts these parties for the backend with tag `t`,
together with the decrements that were lost on the way (the `leaked` entries of the log).

This module says how each event moves a debt from one party to the next, and where each
party's backend stands: a dial's index is its backend's slot, for no reconfiguration runs
meanwhile, and a guard's index is its backend's slot as long as the generation has not
changed (`Placed`).

## Main results

* `load_goto`, `load_settle`, …: what one event does to the load.
* `step_unused`: tags that were never given out carry no load.
* `step_placed`: **the index a dial or an up-to-date guard holds is its backend's slot**.
-/

namespace RotaLb

open Rust StepSystem

variable {σ : Type}

/-! ### The load of a backend -/

/-- The entry records a lost decrement of the backend with tag `t`. -/
def Entry.leakOf (t : ℕ) : Entry → Bool
  | .leaked owner _ => owner = t
  | _ => false

/-- The dial has incremented the count of the backend with tag `t` and not yet undone it. -/
def Dial.owes (t : ℕ) (d : Dial) : Bool := d.owner = t && !d.phase.settled

namespace World

/-- Dials in progress on a backend. A dial whose failure is recorded has ended. -/
def inProgress (w : World σ) (t : ℕ) : ℕ := w.dials.countP (Dial.owes t)

/-- Live connections to a backend. -/
def live (w : World σ) (t : ℕ) : ℕ := w.guards.countP fun h => h.owner = t

/-- Connections to a backend that are inside `drop`, past the check. -/
def dropping (w : World σ) (t : ℕ) : ℕ := w.drops.countP fun p => p.owner = t

/-- Decrements of a backend that were lost. -/
def leaks (w : World σ) (t : ℕ) : ℕ := w.log.countP (Entry.leakOf t)

/-- What the count of a backend should show beyond its seed. -/
def load (w : World σ) (t : ℕ) : ℕ := w.inProgress t + w.live t + w.dropping t + w.leaks t

/-! ### What an event does to the load -/

/-- A world with the same parties and no new leak. -/
theorem load_congr {w : World σ} (w' : World σ) (es : List Entry) (t : ℕ) (hd : w'.dials = w.dials)
    (hg : w'.guards = w.guards) (hp : w'.drops.map Dropping.owner = w.drops.map Dropping.owner)
    (hl : w'.log = w.log ++ es) (hes : ∀ e ∈ es, e.leakOf t = false) : w'.load t = w.load t := by
  have hleaks : es.countP (Entry.leakOf t) = 0 :=
    List.countP_eq_zero.mpr fun e he => by simp [hes e he]
  have hdrop : ∀ l : List Dropping,
      l.countP (fun p => p.owner = t) = (l.map Dropping.owner).countP fun o => o = t := by
    intro l
    rw [List.countP_map]
    rfl
  simp only [load, inProgress, live, dropping, leaks, hd, hg, hl, hdrop, hp, List.countP_append,
    hleaks, Nat.add_zero]

/-- A dial is routed: one more debt of its backend. -/
theorem load_afterRoute {w : World σ} {idx : ℕ} {strategy : σ} {d : Dial}
    (hd : d.phase.settled = false) (t : ℕ) :
    (w.afterRoute idx strategy d).load t = w.load t + if d.owner = t then 1 else 0 := by
  simp only [load, inProgress, live, dropping, leaks, afterRoute, List.countP_append,
    List.countP_singleton, Dial.owes, Entry.leakOf, hd, Bool.not_false, Bool.and_true,
    decide_eq_true_eq, Bool.false_eq_true, if_false]
  omega

/-- A dial moves on without recording a failure. -/
theorem load_goto {w : World σ} {k : ℕ} {d : Dial} {phase : Phase} (hd : w.dials[k]? = some d)
    (hphase : phase.settled = d.phase.settled) (t : ℕ) : (w.goto k d phase).load t = w.load t := by
  have hset := Keyed.countP_set_add (Dial.owes t) hd { d with phase }
  have howes : Dial.owes t { d with phase } = Dial.owes t d := by simp only [Dial.owes, hphase]
  rw [howes] at hset
  simp only [load, inProgress, live, dropping, leaks, goto]
  omega

/-- A dial records its failure: its debt is paid. -/
theorem load_goto_settled {w : World σ} {k : ℕ} {d : Dial} {phase : Phase}
    (hd : w.dials[k]? = some d) (hold : d.phase.settled = false) (hnew : phase.settled = true)
    (t : ℕ) : (w.goto k d phase).load t + (if d.owner = t then 1 else 0) = w.load t := by
  have hset := Keyed.countP_set_add (Dial.owes t) hd { d with phase }
  simp only [Dial.owes, hold, hnew, Bool.not_false, Bool.not_true, Bool.and_true, Bool.and_false,
    decide_eq_true_eq, Bool.false_eq_true, if_false] at hset
  simp only [load, inProgress, live, dropping, leaks, goto]
  omega

/-- A dial returns a connection: the guard takes over its debt. -/
theorem load_connected {w : World σ} {k : ℕ} {d : Dial} {x : Held} (hd : w.dials[k]? = some d)
    (hphase : d.phase.settled = false) (hx : x.owner = d.owner) (t : ℕ) :
    { w with dials := w.dials.eraseIdx k, guards := w.guards ++ [x] }.load t = w.load t := by
  have herase := Keyed.countP_eraseIdx_add (Dial.owes t) hd
  simp only [Dial.owes, hphase, Bool.not_false, Bool.and_true, decide_eq_true_eq] at herase
  simp only [load, inProgress, live, dropping, leaks, List.countP_append, List.countP_singleton,
    hx, decide_eq_true_eq]
  omega

/-- A failed dial returns: it owes nothing any more. -/
theorem load_returned {w : World σ} {k : ℕ} {d : Dial} (hd : w.dials[k]? = some d)
    (hphase : d.phase.settled = true) (t : ℕ) :
    { w with dials := w.dials.eraseIdx k }.load t = w.load t := by
  have herase := Keyed.countP_eraseIdx_add (Dial.owes t) hd
  simp only [Dial.owes, hphase, Bool.not_true, Bool.and_false, Bool.false_eq_true,
    if_false] at herase
  simp only [load, inProgress, live, dropping, leaks]
  omega

/-- A cancelled dial leaves its debt as a leak. -/
theorem load_cancel {w : World σ} {k : ℕ} {d : Dial} (hd : w.dials[k]? = some d) (t : ℕ) :
    (w.cancel k d).load t = w.load t := by
  cases hs : d.phase.settled with
  | true =>
      simp only [cancel, hs, if_true, List.append_nil]
      exact load_returned hd hs t
  | false =>
      have herase := Keyed.countP_eraseIdx_add (Dial.owes t) hd
      simp only [Dial.owes, hs, Bool.not_false, Bool.and_true, decide_eq_true_eq] at herase
      simp only [load, inProgress, live, dropping, leaks, cancel, hs, Bool.false_eq_true,
        if_false, List.countP_append, List.countP_singleton, Entry.leakOf, decide_eq_true_eq]
      omega

/-- A guard is gone from the live ones. -/
theorem load_eraseGuard {w : World σ} {g : ℕ} {h : Held} (hh : w.guards[g]? = some h) (t : ℕ) :
    { w with guards := w.guards.eraseIdx g }.load t + (if h.owner = t then 1 else 0) =
      w.load t := by
  have herase := Keyed.countP_eraseIdx_add (fun h : Held => decide (h.owner = t)) hh
  simp only [decide_eq_true_eq] at herase
  simp only [load, inProgress, live, dropping, leaks]
  omega

/-- A guard is gone from the ones inside `drop`. -/
theorem load_eraseDrop {w : World σ} {d : ℕ} {p : Dropping} (hp : w.drops[d]? = some p) (t : ℕ) :
    { w with drops := w.drops.eraseIdx d }.load t + (if p.owner = t then 1 else 0) =
      w.load t := by
  have herase := Keyed.countP_eraseIdx_add (fun p : Dropping => decide (p.owner = t)) hp
  simp only [decide_eq_true_eq] at herase
  simp only [load, inProgress, live, dropping, leaks]
  omega

/-- A guard joins the ones inside `drop`. -/
theorem load_pushDrop {w : World σ} {p : Dropping} (t : ℕ) :
    { w with drops := w.drops ++ [p] }.load t = w.load t + if p.owner = t then 1 else 0 := by
  simp only [load, inProgress, live, dropping, leaks, List.countP_append, List.countP_singleton,
    decide_eq_true_eq]
  omega

/-- A leak is recorded. -/
theorem load_pushLeak {w : World σ} {owner : ℕ} {cause : Cause} (t : ℕ) :
    { w with log := w.log ++ [Entry.leaked owner cause] }.load t =
      w.load t + if owner = t then 1 else 0 := by
  simp only [load, inProgress, live, dropping, leaks, List.countP_append, List.countP_singleton,
    Entry.leakOf, decide_eq_true_eq]
  omega

/-- The second half of a drop loses the decrement unless it reaches the guard's backend. -/
theorem load_settle {w : World σ} (g : ActiveConnectionGuard) (owner t : ℕ) :
    (w.settle g owner).load t =
      w.load t + if w.tags[g.index]? = some owner then 0 else if owner = t then 1 else 0 := by
  have hleaks : (w.settleEntries g owner).countP (Entry.leakOf t) =
      if w.tags[g.index]? = some owner then 0 else if owner = t then 1 else 0 := by
    unfold settleEntries
    cases w.tags[g.index]? with
    | none => simp [Entry.leakOf]
    | some u =>
        by_cases hu : u = owner
        · simp [hu, Entry.leakOf]
        · simp [hu, Entry.leakOf, List.countP_cons]
  simp only [load, inProgress, live, dropping, leaks, settle, List.countP_append, hleaks]
  omega

/-! ### Tags not given out yet -/

/-- Tags that were never given out carry no load. -/
def Unused (w : World σ) : Prop := ∀ t, w.fresh ≤ t → w.load t = 0

/-- A world with at least as many tags given out and no more load. -/
theorem Unused.mono {w w' : World σ} (h : Unused w) (hfresh : w.fresh ≤ w'.fresh)
    (hload : ∀ t, w.fresh ≤ t → w'.load t ≤ w.load t) : Unused w' := fun t ht =>
  Nat.le_zero.mp ((hload t (hfresh.trans ht)).trans (h t (hfresh.trans ht)).le)

/-- The owner of a debt has a tag that was given out. -/
theorem Unused.lt_fresh {w : World σ} (h : Unused w) {t : ℕ} (ht : 0 < w.load t) : t < w.fresh :=
  not_le.mp fun hle => ht.ne' (h t hle)

/-! ### Where the parties' backends stand -/

end World

/-- A dial's index is the slot of its backend. -/
def Dial.Placed (w : World σ) (d : Dial) : Prop :=
  w.tags[d.index]? = some d.owner ∧ d.gen = w.lb.generation

/-- A guard remembers the generation it was made in; while that is the current one, its
index is the slot of its backend. -/
def Held.Placed (w : World σ) (h : Held) : Prop :=
  h.epoch ≤ w.epoch ∧ h.guard.genAtCreation = UInt64.ofNat h.epoch ∧
    (h.epoch = w.epoch → w.tags[h.guard.index]? = some h.owner)

/-- Until the slots shift under it, the index of a guard inside `drop` is the slot of its
backend. -/
def Dropping.Placed (w : World σ) (p : Dropping) : Prop :=
  p.shifted = false → w.tags[p.guard.index]? = some p.owner

namespace World

/-- The indices that are held outside the balancer's own vectors point where they should. -/
structure Placed (w : World σ) : Prop where
  generation : w.lb.generation = UInt64.ofNat w.epoch
  dials : ∀ d ∈ w.dials, d.Placed w
  guards : ∀ h ∈ w.guards, h.Placed w
  drops : ∀ p ∈ w.drops, p.Placed w

/-- Rewriting metrics moves no slot. -/
theorem Placed.onMetrics {w : World σ} (h : Placed w) (idx : ℕ)
    (f : TunnelMetrics → TunnelMetrics) : Placed (w.onMetrics idx f) :=
  ⟨h.generation, h.dials, h.guards, h.drops⟩

/-- Moving a dial on does not change its index. -/
theorem Placed.goto {w : World σ} (h : Placed w) {k : ℕ} {d : Dial} (hd : w.dials[k]? = some d)
    (phase : Phase) : Placed (w.goto k d phase) := by
  refine ⟨h.generation, fun x hx => ?_, h.guards, h.drops⟩
  rcases List.mem_or_eq_of_mem_set hx with hx | rfl
  · exact h.dials x hx
  · exact h.dials d (List.mem_of_getElem? hd)

/-- Appending a slot moves no other. -/
theorem Placed.added {w : World σ} (h : Placed w) (id : Option String) (ptr : ℕ) :
    Placed (w.added id (w.lb.pushBackend id ⟨w.fresh, ptr⟩)) := by
  have hkeep : ∀ {i t : ℕ}, w.tags[i]? = some t →
      (w.added id (w.lb.pushBackend id ⟨w.fresh, ptr⟩)).tags[i]? = some t := by
    intro i t ht
    rw [tags_added, List.getElem?_append_left (List.getElem?_eq_some_iff.mp ht).1, ht]
  refine ⟨h.generation, fun d hd => ?_, fun x hx => ?_, fun p hp hs => hkeep (h.drops p hp hs)⟩
  · exact ⟨hkeep (h.dials d hd).1, (h.dials d hd).2⟩
  · obtain ⟨hle, hgen, hslot⟩ := h.guards x hx
    exact ⟨hle, hgen, fun he => hkeep (hslot he)⟩

/-- A new generation ends that of every guard. -/
theorem Placed.nextEpoch {w w' : World σ} (h : Placed w)
    (hgen : w'.lb.generation = w.lb.generation + 1) (hepoch : w'.epoch = w.epoch + 1)
    (hdials : w'.dials = []) (hguards : w'.guards = w.guards)
    (hdrops : ∀ p ∈ w'.drops, p.Placed w') : Placed w' := by
  refine ⟨?_, fun d hd => ?_, fun x hx => ?_, hdrops⟩
  · rw [hgen, hepoch, h.generation]
    exact (UInt64.ofNat_add _ _).symm
  · exact absurd (hdials ▸ hd : d ∈ []) List.not_mem_nil
  · obtain ⟨hle, hgen, -⟩ := h.guards x (hguards ▸ hx)
    refine ⟨by omega, hgen, fun he => ?_⟩
    omega

/-- A removal ends the generation of every guard; a pending drop below the removed slot is
not affected. -/
theorem Placed.afterLeave {w : World σ} (h : Placed w) (hd : w.dials = []) (index : ℕ)
    (b : Backend) : Placed (w.afterLeave index b) := by
  refine h.nextEpoch rfl rfl hd rfl fun p hp hs => ?_
  obtain ⟨p, hmem, rfl⟩ := List.mem_map.mp hp
  obtain ⟨hs, hlt⟩ := Bool.or_eq_false_iff.mp hs
  have hkeep : (w.tags.eraseIdx index)[p.guard.index]? = w.tags[p.guard.index]? :=
    List.getElem?_eraseIdx_of_lt (not_le.mp (of_decide_eq_false hlt))
  rw [tags_afterLeave]
  exact hkeep.trans (h.drops p hmem hs)

/-- A replacement ends the generation of every guard and shifts every pending drop. -/
theorem Placed.afterReplace {w : World σ} (h : Placed w) (hd : w.dials = []) (ptrs : List ℕ)
    (strategy : Option σ) : Placed (w.afterReplace ptrs strategy) := by
  refine h.nextEpoch rfl rfl hd rfl fun p hp hs => ?_
  obtain ⟨p, -, rfl⟩ := List.mem_map.mp hp
  simp [Dropping.shift] at hs

/-- **Every event keeps the indices placed.** -/
theorem step_placed [BalanceStrategy σ] {env : Env} {w w' : World σ} {e : Event σ}
    (h : Placed w) (hs : w.step env e = .ok w') : Placed w' := by
  cases step_effect hs with
  | idle => exact h
  | routed _ _ hb _ howner hindex hgen =>
      refine ⟨h.generation, fun x hx => ?_, h.guards, h.drops⟩
      rcases List.mem_append.mp hx with hx | hx
      · exact h.dials x hx
      · obtain rfl := List.mem_singleton.mp hx
        exact ⟨by rw [hindex, howner]; exact tags_getElem? hb, hgen⟩
  | moved _ hd => exact h.goto hd _
  | succeeded hd | errored hd => exact (h.onMetrics _ _).goto hd _
  | @connected k d _ hd =>
      obtain ⟨hslot, hgen⟩ := h.dials d (List.mem_of_getElem? hd)
      refine ⟨h.generation, fun x hx => h.dials x (List.mem_of_mem_eraseIdx hx), fun x hx => ?_,
        h.drops⟩
      rcases List.mem_append.mp hx with hx | hx
      · exact h.guards x hx
      · obtain rfl := List.mem_singleton.mp hx
        exact ⟨le_rfl, hgen.trans h.generation, fun _ => hslot⟩
  | returned | cancelled =>
      exact ⟨h.generation, fun x hx => h.dials x (List.mem_of_mem_eraseIdx hx), h.guards, h.drops⟩
  | dropped | stale =>
      exact ⟨h.generation, h.dials, fun x hx => h.guards x (List.mem_of_mem_eraseIdx hx), h.drops⟩
  | @checked g x hx =>
      refine ⟨h.generation, h.dials, fun y hy => h.guards y (List.mem_of_mem_eraseIdx hy),
        fun p hp => ?_⟩
      rcases List.mem_append.mp hp with hp | hp
      · exact h.drops p hp
      · obtain rfl := List.mem_singleton.mp hp
        intro hs
        exact (h.guards x (List.mem_of_getElem? hx)).2.2 (not_not.mp (of_decide_eq_false hs))
  | written | contended =>
      exact ⟨h.generation, h.dials, h.guards, fun p hp => h.drops p (List.mem_of_mem_eraseIdx hp)⟩
  | entered => exact h.added _ _
  | left hd => exact h.afterLeave hd _ _
  | replaced hd => exact h.afterReplace hd _ _
  | drained | undrained | strategySet => exact ⟨h.generation, h.dials, h.guards, h.drops⟩

/-- In a new world nobody holds an index. -/
theorem initial_placed {w : World σ} (h : w.Initial) : Placed w := by
  obtain ⟨lb, seeds, hc, -, rfl⟩ := h
  refine ⟨hc.constructed.generation, fun d hd => ?_, fun x hx => ?_, fun p hp => ?_⟩
  · exact absurd hd List.not_mem_nil
  · exact absurd hx List.not_mem_nil
  · exact absurd hp List.not_mem_nil

/-! ### The book of the balancer -/

/-- The accounts, counters and debts of a world. -/
def book (w : World σ) : Ledger.Book ℕ where
  accounts := w.pool.members.map fun x => (x.tag, x.seed.activeConnections.toNat)
  counts := w.lb.metrics.map fun m => m.activeConnections.toNat
  load := w.load

/-- The increment of a count in a release build. -/
def wrapInc (a : ℕ) : ℕ := (a + 1) % 2 ^ 32

/-- Every decrement by a guard reached the backend the guard was created for. -/
def Faithful (w : World σ) : Prop := ∀ o t, Entry.decremented o t ∈ w.log → o = t

/-- The keys of the book are the tags of the slots. -/
theorem Sync.keys_book {w : World σ} (h : Sync w) : w.book.keys = w.tags := by
  rw [h.tags, Ledger.Book.keys, book, List.map_map]
  rfl

end World

end RotaLb
