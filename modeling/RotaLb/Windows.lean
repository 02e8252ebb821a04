import RotaLb.Accounting
import RotaLb.Refinement
import RotaLb.Replace

/-!
# Reconfigurations in Two Halves

`remove_backend` and `replace_backends` count up the generation first and write the metrics
later, after an await. In between the owner holds `&mut self`, so no dial runs; but connections
hold only `Arc`s, and their drops may check the generation and write the metrics in this window.
Here a reconfiguration is the two steps it is: `first` up to the metrics lock, `second` from
there on, and any drop events in between.

A decrement in the window goes by the old slots, as if the reconfiguration had not begun; a
check in the window sees the new generation, as if it had ended. So a window is reordered into
its decrements, the whole reconfiguration and its checks, and nothing that is proved about
`World`, where a reconfiguration is one event, is lost.

## Main results

* `step_relog`: no event reads the log.
* `mirrors_halves`: one step of the split system, on the level of `World`.
* `reconfigurations_atomic`: **every run with split reconfigurations reaches the state of a run
  with whole ones**, with the same history up to the order of its entries.
-/

namespace RotaLb

open Rust StepSystem

variable {σ : Type}

/-! ### The two halves -/

namespace LoadBalancer

/-- `remove_backend` up to its metrics lock; `none` if the index is out of bounds. -/
def removeFirst (lb : LoadBalancer σ) (index : ℕ) : Except Panic (Option (LoadBalancer σ)) :=
  if lb.backends.length ≤ index then
    .ok none
  else do
    let generation := lb.generation + 1
    let (_, backends) ← Vec.remove lb.backends index
    let (_, ids) ← Vec.remove lb.ids index
    return some { lb with generation, backends, ids }

/-- `remove_backend` from its metrics lock on. -/
def removeSecond (lb : LoadBalancer σ) (index : ℕ) : Except Panic (LoadBalancer σ) := do
  let (_, metrics) ← Vec.remove lb.metrics index
  return { lb with metrics }

end LoadBalancer

/-- The event is a call that has two halves. -/
def Event.splits : Event σ → Bool
  | .removeBackend _ | .removeBackendById _ | .removeBackendByPtr _ | .replaceBackends .. => true
  | _ => false

/-- The event belongs to the drop of a connection. -/
def Event.dropping : Event σ → Bool
  | .drop _ | .dropCheck _ | .dropWrite .. => true
  | _ => false

/-- The connection whose drop begins with this event. -/
def Event.checked : Event σ → List ℕ
  | .drop g | .dropCheck g => [g]
  | _ => []

/-- What is left to do after the first half. -/
inductive Closing (σ : Type)
  | remove (index : ℕ)
  | replace (ptrs : List ℕ) (strategy : Option σ)

/-- A call between its halves. Beside what it has still to do, the window carries history: the
call, the backends that the rows of the metrics belong to, and the connections whose drop has
begun meanwhile. -/
structure Window (σ : Type) where
  closing : Closing σ
  call : Event σ
  rows : List Backend
  checks : List ℕ

namespace World

/-- The balancer after the first half of a call, and what is left to do; `none` if the call
returns at once. -/
def firstHalf (w : World σ) (call : Event σ) :
    Except Panic (Option (LoadBalancer σ × Closing σ)) :=
  match call with
  | .replaceBackends ptrs strategy =>
    if ptrs.isEmpty then .ok none
    else .ok (some (w.lb.replaceDrain.replaceIds ptrs.length, .replace ptrs strategy))
  | call =>
    match w.removalIndex call with
    | none => .ok none
    | some index => do
      let lb? ← w.lb.removeFirst index
      return lb?.map (·, .remove index)

/-- The second half of a call. -/
def secondHalf (w : World σ) (x : Window σ) : Except Panic (World σ) :=
  match x.closing with
  | .remove index => do
    let lb ← w.lb.removeSecond index
    return { w with
      lb
      epoch := w.epoch + 1
      drops := w.drops.map (Dropping.shift index)
      log := w.log ++ (x.rows[index]?.map fun b => .left b.tag).toList }
  | .replace ptrs strategy =>
    .ok { w with
      lb := (w.lb.replacePool (tagFrom w.fresh ptrs)).setStrategy (strategy.getD w.lb.strategy)
      fresh := w.fresh + ptrs.length
      epoch := w.epoch + 1
      drops := w.drops.map (Dropping.shift 0)
      log := w.log ++ x.rows.map (fun b => .left b.tag)
        ++ (tagFrom w.fresh ptrs).map fun b => .entered b.tag none default }

/-- The world with other backends. -/
def withBackends (w : World σ) (backends : List Backend) : World σ :=
  { w with lb := { w.lb with backends } }

end World

/-- The world, and the window of the reconfiguration in progress. -/
structure Halves (σ : Type) where
  world : World σ
  window : Option (Window σ)

/-- An event of the split system. -/
inductive HalfEvent (σ : Type)
  /-- An event of `World`, other than a call with two halves. -/
  | on (e : Event σ)
  /-- The first half of a call. -/
  | first (call : Event σ)
  /-- The second half of the call in progress. -/
  | second

namespace Halves

/-- No reconfiguration is in progress. -/
def whole (w : World σ) : Halves σ := ⟨w, none⟩

/-- An event of `World`. In a window only drops run, and their decrements are recorded for the
backends that the rows of the metrics belong to. -/
def on [BalanceStrategy σ] (env : Env) (s : Halves σ) (e : Event σ) : Except Fault (Halves σ) :=
  match s.window with
  | none =>
    if e.splits then .error .disabled
    else (s.world.step env e).map whole
  | some x =>
    if e.dropping then
      ((s.world.withBackends x.rows).step env e).map fun w =>
        ⟨w.withBackends s.world.lb.backends, some { x with checks := x.checks ++ e.checked }⟩
    else .error .disabled

/-- One event. -/
def step [BalanceStrategy σ] (env : Env) (s : Halves σ) : HalfEvent σ → Except Fault (Halves σ)
  | .on e => s.on env e
  | .first call =>
    match s.window with
    | some _ => .error .disabled
    | none =>
      if call.splits && s.world.dials.isEmpty then
        match s.world.firstHalf call with
        | .error p => .error (.panic p)
        | .ok none => .ok s
        | .ok (some (lb, closing)) =>
          .ok ⟨{ s.world with lb }, some ⟨closing, call, s.world.lb.backends, []⟩⟩
      else .error .disabled
  | .second =>
    match s.window with
    | none => .error .disabled
    | some x =>
      match s.world.secondHalf x with
      | .error p => .error (.panic p)
      | .ok w => .ok (whole w)

/-- What an event amounts to on the level of `World`: a window's decrements at once, then, at its
end, the whole call and the checks. -/
def commits (s : Halves σ) : HalfEvent σ → List (Event σ)
  | .on e =>
    match s.window with
    | none => [e]
    | some _ => if e.checked = [] then [e] else []
  | .first _ => []
  | .second =>
    match s.window with
    | none => []
    | some x => x.call :: x.checks.map .dropCheck

end Halves

/-! ### The log is only written -/

/-- The same entries, those about the pool in the same order. -/
structure SameLog (l l' : List Entry) : Prop where
  perm : l.Perm l'
  onPool : l.filter Entry.onPool = l'.filter Entry.onPool

/-- Logs of the same entries go on with the same entries. -/
theorem SameLog.append {l l' : List Entry} (h : SameLog l l') (es : List Entry) :
    SameLog (l ++ es) (l' ++ es) :=
  ⟨h.perm.append_right es, by rw [List.filter_append, List.filter_append, h.onPool]⟩

/-- Entries that are not about the pool may be recorded later. -/
theorem SameLog.delay {l l₁ : List Entry} {gone : List Entry}
    (hgone : ∀ e ∈ gone, e.onPool = false) (h : SameLog l (l₁ ++ gone)) (es : List Entry) :
    SameLog (l ++ es) (l₁ ++ es ++ gone) := by
  have hnone : gone.filter Entry.onPool = [] :=
    List.filter_eq_nil_iff.mpr fun e he => by simp [hgone e he]
  refine ⟨?_, ?_⟩
  · rw [List.append_assoc]
    refine (h.perm.append_right es).trans ?_
    rw [List.append_assoc]
    exact List.perm_append_comm.append_left l₁
  · simp only [List.filter_append, h.onPool, hnone, List.append_nil]

/-- The pool reads the entries about the pool only. -/
theorem Pool.replay_filter (log : List Entry) : replay (log.filter Entry.onPool) = replay log := by
  induction log using List.reverseRecOn with
  | nil => rfl
  | append_singleton log e ih =>
      cases he : e.onPool with
      | true =>
          rw [List.filter_append, List.filter_singleton, he, cond_true, replay_append, ih,
            ← replay_append]
      | false =>
          rw [List.filter_append, List.filter_singleton, he, cond_false, List.append_nil, ih,
            replay_append_of_not_onPool (by simpa using he)]

/-- Logs of the same entries describe the same pool. -/
theorem SameLog.replay {l l' : List Entry} (h : SameLog l l') : Pool.replay l = Pool.replay l' := by
  rw [← Pool.replay_filter, h.onPool, Pool.replay_filter]

namespace World

/-- The world with another log. -/
def relog (w : World σ) (log : List Entry) : World σ := { w with log }

/-- `r'` is `r` on another log: it ends in the same world and records the same entries. -/
def Relogs (w : World σ) (l : List Entry) (r r' : Except Fault (World σ)) : Prop :=
  ∀ w', r = .ok w' → ∃ es, w'.log = w.log ++ es ∧ r' = .ok (w'.relog (l ++ es))

/-- An event that records `es`. -/
theorem relogs_ok {w w' : World σ} {l : List Entry} {r' : Except Fault (World σ)}
    (es : List Entry) (hlog : w'.log = w.log ++ es) (hr : r' = .ok (w'.relog (l ++ es))) :
    Relogs w l (.ok w') r' := by
  intro w'' h
  cases h
  exact ⟨es, hlog, hr⟩

theorem relogs_error {w : World σ} {l : List Entry} {f : Fault} {r' : Except Fault (World σ)} :
    Relogs w l (.error f) r' := nofun

/-- An event that records nothing. -/
theorem relogs_unlogged {w w' : World σ} {l : List Entry} (hlog : w'.log = w.log) :
    Relogs w l (.ok w') (.ok (w'.relog l)) :=
  relogs_ok [] (by rw [hlog, List.append_nil]) (by rw [List.append_nil])

theorem relogs_onItem {α : Type} {w : World σ} {l : List Entry} {xs : List α} {k : ℕ}
    {f f' : α → Except Fault (World σ)} (h : ∀ a, Relogs w l (f a) (f' a)) :
    Relogs w l (onItem xs k f) (onItem xs k f') := by
  unfold onItem
  split
  · exact h _
  · exact relogs_error

theorem relogs_exclusive {w : World σ} {l : List Entry} {r r' : Except Fault (World σ)}
    (h : Relogs w l r r') : Relogs w l (w.exclusive r) ((w.relog l).exclusive r') := by
  unfold exclusive relog
  split
  · exact h
  · exact relogs_error

theorem relogs_marked {w : World σ} {l : List Entry} (index : ℕ) (done : Done σ Bool)
    (entry : ℕ → Entry) :
    Relogs w l (.ok (w.marked index done entry)) (.ok ((w.relog l).marked index done entry)) := by
  by_cases hvalue : done.value
  · simp only [marked, relog, hvalue, if_true]
    exact relogs_ok _ rfl rfl
  · simp only [marked, relog, hvalue, Bool.false_eq_true, if_false]
    exact relogs_unlogged rfl

/-- **No event reads the log.** -/
theorem step_relog [BalanceStrategy σ] (env : Env) (w : World σ) (e : Event σ) (l : List Entry) :
    Relogs w l (w.step env e) ((w.relog l).step env e) := by
  cases e with
  | start addr timeout policy draw =>
      simp only [step, start, relog]
      split
      · exact relogs_error
      · exact relogs_unlogged rfl
      · exact relogs_ok _ rfl rfl
  | attempted k outcome elapsed draw =>
      refine relogs_onItem fun d => ?_
      simp only [attempted]
      split
      · split
        · exact relogs_unlogged rfl
        · exact relogs_error
      · exact relogs_error
  | woke k =>
      refine relogs_onItem fun d => ?_
      simp only [woke, relog]
      split
      · split
        · exact relogs_unlogged rfl
        · exact relogs_error
      · exact relogs_error
  | lockMetrics k =>
      refine relogs_onItem fun d => ?_
      simp only [lockMetrics]
      split
      · exact relogs_unlogged rfl
      · exact relogs_unlogged rfl
      · exact relogs_error
  | lockStrategy k =>
      refine relogs_onItem fun d => ?_
      simp only [lockStrategy, relog]
      split
      · split
        · exact relogs_unlogged rfl
        · exact relogs_error
      · split
        · exact relogs_unlogged rfl
        · exact relogs_error
      · exact relogs_error
  | cancel k => exact relogs_onItem fun d => relogs_ok _ rfl rfl
  | drop g =>
      refine relogs_onItem fun h => ?_
      by_cases hgen : h.guard.unchanged w.lb
      all_goals
        simp only [World.drop, relog, hgen, Bool.false_eq_true, if_true, if_false]
        exact relogs_ok _ rfl rfl
  | dropCheck g =>
      refine relogs_onItem fun h => ?_
      by_cases hgen : h.guard.unchanged w.lb
      · simp only [World.dropCheck, relog, hgen, if_true]
        exact relogs_unlogged rfl
      · simp only [World.dropCheck, relog, hgen, Bool.false_eq_true, if_false]
        exact relogs_ok _ rfl rfl
  | dropWrite d free =>
      refine relogs_onItem fun p => ?_
      cases free with
      | true => exact relogs_ok _ rfl rfl
      | false => exact relogs_ok _ rfl rfl
  | addBackend ptr => exact relogs_exclusive (relogs_ok _ rfl rfl)
  | addBackendWithId id ptr => exact relogs_exclusive (relogs_ok _ rfl rfl)
  | removeBackend index | removeBackendById index | removeBackendByPtr index =>
      refine relogs_exclusive ?_
      simp only [removed, relog]
      split
      · exact relogs_error
      · split
        · exact relogs_ok _ rfl rfl
        · exact relogs_unlogged rfl
  | replaceBackends ptrs strategy =>
      refine relogs_exclusive ?_
      simp only [replaced, relog]
      split
      · exact relogs_unlogged rfl
      · refine relogs_ok _ (List.append_assoc _ _ _) ?_
        rw [List.append_assoc]
        rfl
  | drainBackend index => exact relogs_exclusive (relogs_marked index _ _)
  | undrainBackend index => exact relogs_exclusive (relogs_marked index _ _)
  | setStrategy strategy => exact relogs_exclusive (relogs_unlogged rfl)

/-! ### Connections dropped one after the other -/

end World

/-- Take out the elements at the given positions, one after the other: what is left, and what
was taken out. -/
def takeAll {α : Type} (l : List α) : List ℕ → Option (List α × List α)
  | [] => some (l, [])
  | k :: ks =>
    match l[k]? with
    | none => none
    | some a => (takeAll (l.eraseIdx k) ks).map fun r => (r.1, a :: r.2)

/-- One more element is taken out. -/
theorem takeAll_append {α : Type} {l rest taken : List α} {ks : List ℕ} {k : ℕ} {a : α}
    (h : takeAll l ks = some (rest, taken)) (ha : rest[k]? = some a) :
    takeAll l (ks ++ [k]) = some (rest.eraseIdx k, taken ++ [a]) := by
  induction ks generalizing l taken with
  | nil =>
      cases h
      simp [takeAll, ha]
  | cons j ks ih =>
      rw [List.cons_append, takeAll]
      rw [takeAll] at h
      cases hj : l[j]? with
      | none => simp [hj] at h
      | some b =>
          simp only [hj] at h ⊢
          obtain ⟨⟨rest', taken'⟩, hrec, heq⟩ := Option.map_eq_some_iff.mp h
          cases heq
          rw [ih hrec]
          rfl

/-- What is left was there before. -/
theorem mem_of_takeAll {α : Type} {l rest taken : List α} {ks : List ℕ}
    (h : takeAll l ks = some (rest, taken)) : ∀ a ∈ rest, a ∈ l := by
  induction ks generalizing l taken with
  | nil =>
      cases h
      exact fun _ ha => ha
  | cons j ks ih =>
      rw [takeAll] at h
      split at h
      · cases h
      · obtain ⟨⟨rest', taken'⟩, hrec, heq⟩ := Option.map_eq_some_iff.mp h
        cases heq
        exact fun a ha => List.mem_of_mem_eraseIdx (ih hrec a ha)

namespace World

/-- The entry of a drop that found the generation changed. -/
def staleEntry (h : Held) : Entry := .leaked h.owner .stale

/-- The drop of a connection of an older generation, in one step or its first half. -/
theorem step_stale [BalanceStrategy σ] {env : Env} {w : World σ} {e : Event σ} {g : ℕ} {h : Held}
    (he : e.checked = [g]) (hg : w.guards[g]? = some h)
    (hgen : w.lb.generation ≠ h.guard.genAtCreation) :
    w.step env e =
      .ok { w with guards := w.guards.eraseIdx g, log := w.log ++ [staleEntry h] } := by
  cases e with
  | drop k =>
      cases he
      simp [step, onItem, hg, World.drop, ActiveConnectionGuard.unchanged, hgen, staleEntry]
  | dropCheck k =>
      cases he
      simp [step, onItem, hg, World.dropCheck, ActiveConnectionGuard.unchanged, hgen, staleEntry]
  | _ => cases he

/-- Connections of an older generation are dropped: they leave, and nothing is decremented. -/
theorem run_stale [BalanceStrategy σ] {env : Env} {ks : List ℕ} {w : World σ}
    {rest gone : List Held} (hks : takeAll w.guards ks = some (rest, gone))
    (hold : ∀ h ∈ w.guards, w.lb.generation ≠ h.guard.genAtCreation) :
    run (step env) w (ks.map .dropCheck) =
      .ok { w with guards := rest, log := w.log ++ gone.map staleEntry } := by
  induction ks generalizing w gone with
  | nil =>
      cases hks
      simp
  | cons k ks ih =>
      rw [takeAll] at hks
      split at hks
      · cases hks
      · rename_i h hk
        obtain ⟨⟨rest', gone'⟩, hrec, heq⟩ := Option.map_eq_some_iff.mp hks
        cases heq
        have hgen := hold h (List.mem_of_getElem? hk)
        refine run_cons_eq_ok.mpr ⟨_, step_stale rfl hk hgen, (ih hrec ?_).trans ?_⟩
        · exact fun x hx => hold x (List.mem_of_mem_eraseIdx hx)
        · simp

/-- Below `2 ^ 64` changes no guard has the next generation. -/
theorem Placed.ne_next {w : World σ} (h : Placed w) (hepoch : w.epoch + 1 < 2 ^ 64) :
    ∀ x ∈ w.guards, w.lb.generation + 1 ≠ x.guard.genAtCreation := by
  intro x hx hgen
  obtain ⟨hle, hmade, -⟩ := h.guards x hx
  have hnext : w.lb.generation + 1 = UInt64.ofNat (w.epoch + 1) := by
    rw [h.generation]
    exact (UInt64.ofNat_add _ _).symm
  rw [hnext, hmade] at hgen
  have hval := congrArg UInt64.toNat hgen
  have hlt : x.epoch < 2 ^ 64 := by omega
  rw [UInt64.toNat_ofNat_of_lt' hepoch, UInt64.toNat_ofNat_of_lt' hlt] at hval
  omega

/-- A drop that begins is the drop of a connection. -/
theorem exists_of_checked [BalanceStrategy σ] {env : Env} {w w' : World σ} {e : Event σ} {g : ℕ}
    (he : e.checked = [g]) (hs : w.step env e = .ok w') : ∃ h, w.guards[g]? = some h := by
  cases e with
  | drop k | dropCheck k =>
      cases he
      obtain ⟨h, hh, -⟩ := onItem_eq_ok hs
      exact ⟨h, hh⟩
  | _ => cases he

/-- The world after the second half of a drop. -/
def written (w : World σ) (metrics : List TunnelMetrics) (drops : List Dropping)
    (es : List Entry) : World σ :=
  { w with lb := { w.lb with metrics }, drops, log := w.log ++ es }

/-- The second half of a drop reads the drops, the metrics and, for the log, the backends. -/
theorem step_dropWrite [BalanceStrategy σ] {env : Env} {u u' w : World σ} {d : ℕ} {free : Bool}
    (hdrops : u.drops = w.drops) (hmetrics : u.lb.metrics = w.lb.metrics)
    (hbackends : u.lb.backends = w.lb.backends) (hs : u.step env (.dropWrite d free) = .ok u') :
    ∃ metrics drops es, u' = u.written metrics drops es ∧
      w.step env (.dropWrite d free) = .ok (w.written metrics drops es) := by
  obtain ⟨p, hp, hw⟩ := onItem_eq_ok hs
  cases hw
  have hp' : w.drops[d]? = some p := hdrops ▸ hp
  cases free with
  | true =>
      refine ⟨_, _, _, rfl, ?_⟩
      simp only [step, onItem, hp', World.dropWrite, if_true, settle, written,
        ActiveConnectionGuard.decrement, settleEntries, tags, hdrops, hmetrics, hbackends]
  | false =>
      refine ⟨u.lb.metrics, _, _, rfl, ?_⟩
      simp only [step, onItem, hp', World.dropWrite, Bool.false_eq_true, if_false, written, hdrops,
        hmetrics]

end World

/-! ### The whole call -/

/-- The balancer between the halves of a call. -/
def Closing.halfway (lb : LoadBalancer σ) : Closing σ → LoadBalancer σ
  | .remove index =>
    { lb with
      generation := lb.generation + 1
      backends := lb.backends.eraseIdx index
      ids := lb.ids.eraseIdx index }
  | .replace ptrs _ => lb.replaceDrain.replaceIds ptrs.length

/-- The call that leaves this to do. -/
def Closing.Of (w : World σ) (call : Event σ) : Closing σ → Prop
  | .remove index => w.removalIndex call = some index ∧ index < w.lb.backends.length
  | .replace ptrs strategy => call = .replaceBackends ptrs strategy ∧ ptrs ≠ []

theorem Closing.halfway_generation (lb : LoadBalancer σ) (c : Closing σ) :
    (c.halfway lb).generation = lb.generation + 1 := by
  cases c <;> rfl

theorem Closing.halfway_metrics (lb : LoadBalancer σ) (c : Closing σ) :
    (c.halfway lb).metrics = lb.metrics := by
  cases c <;> rfl

/-- The first half does not read the metrics. -/
theorem Closing.halfway_withMetrics (lb : LoadBalancer σ) (metrics : List TunnelMetrics)
    (c : Closing σ) :
    c.halfway { lb with metrics } = { c.halfway lb with metrics } := by
  cases c <;> rfl

namespace World

/-- What the first half of a call does, unless the call returns at once. -/
theorem firstHalf_eq_some {w : World σ} {call : Event σ} {lb : LoadBalancer σ} {c : Closing σ}
    (h : w.firstHalf call = .ok (some (lb, c))) : c.Of w call ∧ lb = c.halfway w.lb := by
  have hremove : ∀ {index : ℕ}, w.removalIndex call = some index →
      (do let lb? ← w.lb.removeFirst index
          return lb?.map (·, Closing.remove index) : Except Panic _) = .ok (some (lb, c)) →
      c.Of w call ∧ lb = c.halfway w.lb := by
    intro index hindex h
    obtain ⟨lb?, hfirst, h⟩ := bind_eq_ok.mp h
    unfold LoadBalancer.removeFirst at hfirst
    split at hfirst
    · cases hfirst
      cases h
    · obtain ⟨⟨b, bs⟩, hb, hfirst⟩ := bind_eq_ok.mp hfirst
      obtain ⟨⟨i, is⟩, hi, hfirst⟩ := bind_eq_ok.mp hfirst
      obtain ⟨-, rfl⟩ := Vec.remove_eq_ok.mp hb
      obtain ⟨-, rfl⟩ := Vec.remove_eq_ok.mp hi
      cases hfirst
      cases h
      exact ⟨⟨hindex, by omega⟩, rfl⟩
  cases call with
  | replaceBackends ptrs strategy =>
      simp only [firstHalf] at h
      split at h
      · cases h
      · rename_i hne
        cases h
        exact ⟨⟨rfl, by simpa using hne⟩, rfl⟩
  | removeBackend index => exact hremove rfl h
  | removeBackendById id | removeBackendByPtr id =>
      simp only [firstHalf] at h
      split at h
      · cases h
      · exact hremove ‹_› h
  | _ => cases h

/-- A removal at an index in range, by whichever call. -/
theorem step_removal [BalanceStrategy σ] {env : Env} {w : World σ} {call : Event σ} {index : ℕ}
    {b : Backend} (hsync : Sync w) (hd : w.dials = []) (hcall : w.removalIndex call = some index)
    (hb : w.lb.backends[index]? = some b) : w.step env call = .ok (w.afterLeave index b) := by
  obtain ⟨hlb, hli, hlm⟩ := hsync.length
  obtain ⟨done, hdone⟩ := removeBackend_ok (hli.trans hlb.symm) (hlm.trans hlb.symm) index
  have hremoved : w.removed index (w.lb.removeBackend index) = .ok (w.afterLeave index b) := by
    rcases removeBackend_cases hdone with ⟨-, hlen⟩ | ⟨b', hb', rfl⟩
    · exact absurd (List.getElem?_eq_some_iff.mp hb).1 (by omega)
    · cases hb.symm.trans hb'
      rw [hdone]
      rfl
  have hexcl : ∀ r : Except Fault (World σ), w.exclusive r = r := by
    intro r
    rw [exclusive, hd]
    rfl
  cases call with
  | removeBackend i =>
      cases hcall
      rw [step, hexcl, hremoved]
  | removeBackendById id =>
      have hfind : w.lb.ids.findIdx? (· = some id) = some index := hcall
      rw [step, hexcl, LoadBalancer.removeBackendById, hfind]
      exact hremoved
  | removeBackendByPtr ptr =>
      have hfind : w.lb.backends.findIdx? (·.ptr = ptr) = some index := hcall
      rw [step, hexcl, LoadBalancer.removeBackendByPtr, hfind]
      exact hremoved
  | _ => cases hcall

/-- **The two halves are the whole call**: the second half, in a world where connections were
dropped since the first, ends where the call does, without them. -/
theorem secondHalf_eq [BalanceStrategy σ] (env : Env) {w u' : World σ} {x : Window σ}
    {guards : List Held} {l : List Entry} (hsync : Sync w) (hd : w.dials = [])
    (hof : x.closing.Of w x.call) (hrows : x.rows = w.lb.backends)
    (hs : { w with lb := x.closing.halfway w.lb, guards, log := l }.secondHalf x = .ok u') :
    ∃ w' es, w.step env x.call = .ok w' ∧ w'.log = w.log ++ es ∧ w'.guards = w.guards ∧
      w'.lb.generation = w.lb.generation + 1 ∧ u' = { w' with guards, log := l ++ es } := by
  obtain ⟨closing, call, rows, checks⟩ := x
  cases hrows
  cases closing with
  | remove index =>
      obtain ⟨hindex, hlt⟩ := hof
      have hb := List.getElem?_eq_getElem hlt
      refine ⟨_, _, step_removal hsync hd hindex hb, rfl, rfl, rfl, ?_⟩
      obtain ⟨lb, hlb, hs⟩ := bind_eq_ok.mp hs
      obtain ⟨⟨m, ms⟩, hm, hlb⟩ := bind_eq_ok.mp hlb
      obtain ⟨-, rfl⟩ := Vec.remove_eq_ok.mp hm
      cases hlb
      cases hs
      simp only [hb, Option.map_some, Option.toList_some]
      rfl
  | replace ptrs strategy =>
      obtain ⟨rfl, hne⟩ := hof
      have hstep : w.step env (.replaceBackends ptrs strategy) =
          .ok (w.afterReplace ptrs strategy) := by
        cases ptrs with
        | nil => exact absurd rfl hne
        | cons ptr ptrs =>
            rw [step, exclusive, hd]
            rfl
      refine ⟨_, _, hstep, List.append_assoc _ _ _, rfl, rfl, ?_⟩
      cases hs
      simp only [Closing.halfway, LoadBalancer.replaceIds, afterReplace, length_tagFrom,
        LoadBalancer.replacePool, List.append_assoc]
      rfl

/-- A step changes the generation at most once. -/
theorem step_epoch_le [BalanceStrategy σ] {env : Env} {w w' : World σ} {e : Event σ}
    (hs : w.step env e = .ok w') : w'.epoch ≤ w.epoch + 1 := by
  cases step_effect hs with
  | left | replaced => exact le_rfl
  | _ => exact Nat.le_succ _

end World

namespace Halves

/-! ### Reordering a window -/

/-- A window on the level of `World`, where its call has not begun: the connections that were
dropped are still there, and their drops are not in the log. -/
structure Between (x : Window σ) (u w : World σ) : Prop where
  dials : w.dials = []
  call : x.closing.Of w x.call
  rows : x.rows = w.lb.backends
  view : ∃ gone l, takeAll w.guards x.checks = some (u.guards, gone) ∧
    SameLog l (w.log ++ gone.map World.staleEntry) ∧
    u = { w with lb := x.closing.halfway w.lb, guards := u.guards, log := l }

/-- In a window the metrics, the pending drops and the number of changes are as before the call. -/
theorem Between.same {x : Window σ} {u w : World σ} (h : Between x u w) :
    u.lb.metrics = w.lb.metrics ∧ u.drops = w.drops ∧ u.epoch = w.epoch := by
  obtain ⟨-, -, -, gone, l, -, -, hu⟩ := h
  rw [hu]
  exact ⟨x.closing.halfway_metrics w.lb, rfl, rfl⟩

/-- What a state of the split system and a world have in common. -/
def View (s : Halves σ) (w : World σ) : Prop :=
  match s.window with
  | none => ∃ l, SameLog l w.log ∧ s.world = w.relog l
  | some x => Between x s.world w

/-- A state of the split system and the world it amounts to. -/
structure Mirrors (s : Halves σ) (w : World σ) : Prop where
  sync : w.Sync
  placed : w.Placed
  view : View s w

/-- A decrement in a window is made before the call. -/
theorem Between.dropWrite [BalanceStrategy σ] {env : Env} {x : Window σ} {u u' w : World σ} {d : ℕ}
    {free : Bool} (h : Between x u w)
    (hs : (u.withBackends x.rows).step env (.dropWrite d free) = .ok u') :
    ∃ w', w.step env (.dropWrite d free) = .ok w' ∧
      Between x (u'.withBackends u.lb.backends) w' := by
  obtain ⟨hmetrics, hdrops, -⟩ := h.same
  obtain ⟨hdials, hcall, hrows, gone, l, hgone, hlog, hu⟩ := h
  have hview : (u.withBackends x.rows).drops = w.drops := hdrops
  obtain ⟨metrics, drops, es, rfl, hw⟩ := World.step_dropWrite hview hmetrics hrows hs
  obtain ⟨lb, dials, guards, drops', fresh, epoch, log⟩ := u
  simp only [World.mk.injEq, true_and] at hu
  obtain ⟨rfl, rfl, rfl, rfl, rfl, rfl⟩ := hu
  refine ⟨_, hw, hdials, ?_, hrows, gone, log ++ es, hgone, ?_, ?_⟩
  · revert hcall
    cases x.closing with
    | remove index => exact fun hcall => hcall
    | replace ptrs strategy => exact fun hcall => hcall
  · refine hlog.delay ?_ es
    simp [World.staleEntry, Entry.onPool]
  · simp [World.withBackends, World.written, Closing.halfway_withMetrics]

/-- A check in a window finds the generation changed, as it would after the call. -/
theorem Between.check [BalanceStrategy σ] {env : Env} {x : Window σ} {u u' w : World σ}
    {e : Event σ} {g : ℕ} (h : Between x u w) (hplaced : w.Placed) (hepoch : w.epoch + 1 < 2 ^ 64)
    (he : e.checked = [g]) (hs : (u.withBackends x.rows).step env e = .ok u') :
    Between { x with checks := x.checks ++ [g] } (u'.withBackends u.lb.backends) w := by
  obtain ⟨hdials, hcall, hrows, gone, l, hgone, hlog, hu⟩ := h
  obtain ⟨k, hk⟩ := World.exists_of_checked he hs
  have hgen : (u.withBackends x.rows).lb.generation ≠ k.guard.genAtCreation := by
    have hlb : u.lb = x.closing.halfway w.lb := congrArg World.lb hu
    rw [World.withBackends, hlb, x.closing.halfway_generation]
    exact hplaced.ne_next hepoch k (mem_of_takeAll hgone k (List.mem_of_getElem? hk))
  obtain rfl : _ = u' := Except.ok.inj ((World.step_stale he hk hgen).symm.trans hs)
  refine ⟨hdials, hcall, hrows, gone ++ [k], l ++ [World.staleEntry k],
    takeAll_append hgone hk, ?_, ?_⟩
  · rw [List.map_append, ← List.append_assoc]
    exact hlog.append _
  · obtain ⟨lb, dials, guards, drops, fresh, epoch, log⟩ := u
    simp only [World.mk.injEq, true_and] at hu
    obtain ⟨rfl, rfl, rfl, rfl, rfl, rfl⟩ := hu
    rfl

/-- The second half of a call is the whole call, followed by the checks of its window. -/
theorem Between.second [BalanceStrategy σ] {env : Env} {x : Window σ} {u u' w : World σ}
    (h : Between x u w) (hsync : w.Sync) (hplaced : w.Placed) (hepoch : w.epoch + 1 < 2 ^ 64)
    (hs : u.secondHalf x = .ok u') :
    ∃ w', run (World.step env) w (x.call :: x.checks.map .dropCheck) = .ok w' ∧
      ∃ l, SameLog l w'.log ∧ u' = w'.relog l := by
  obtain ⟨hdials, hcall, hrows, gone, l, hgone, hlog, hu⟩ := h
  rw [hu] at hs
  obtain ⟨w', es, hstep, hlog', hguards, hgen, rfl⟩ :=
    World.secondHalf_eq env hsync hdials hcall hrows hs
  have hold : ∀ k ∈ w'.guards, w'.lb.generation ≠ k.guard.genAtCreation := by
    rw [hguards, hgen]
    exact hplaced.ne_next hepoch
  rw [← hguards] at hgone
  refine ⟨_, run_cons_eq_ok.mpr ⟨w', hstep, World.run_stale hgone hold⟩, l ++ es, ?_, rfl⟩
  simp only [hlog']
  refine hlog.delay ?_ es
  simp [World.staleEntry, Entry.onPool]

/-- **One step of the split system**, on the level of `World`. -/
theorem mirrors_halves [BalanceStrategy σ] {env : Env} {s s' : Halves σ} {w : World σ}
    {e : HalfEvent σ} (h : Mirrors s w) (hepoch : s.world.epoch + 1 < 2 ^ 64)
    (hs : s.step env e = .ok s') :
    ∃ w', run (World.step env) w (s.commits e) = .ok w' ∧ Mirrors s' w' := by
  -- The invariants of `World` come along with its run.
  suffices hview : ∃ w', run (World.step env) w (s.commits e) = .ok w' ∧ View s' w' by
    obtain ⟨w', hrun, hview⟩ := hview
    exact ⟨w', hrun, run_invariant (fun _ _ _ => World.step_sync) h.sync hrun,
      run_invariant (fun _ _ _ => World.step_placed) h.placed hrun, hview⟩
  obtain ⟨hsync, hplaced, hview⟩ := h
  obtain ⟨u, - | x⟩ := s
  · -- No window is open: the worlds agree up to the order of the log.
    obtain ⟨l, hlog, hu⟩ := hview
    obtain rfl : u = w.relog l := hu
    cases e with
    | on e =>
        simp only [step, on] at hs
        split at hs
        · cases hs
        · obtain ⟨u', hu', rfl⟩ := map_eq_ok.mp hs
          obtain ⟨es, hes, hw⟩ := World.step_relog env (w.relog l) e w.log u' hu'
          refine ⟨_, run_singleton.mpr hw, l ++ es, hlog.append es, ?_⟩
          rw [← show u'.log = l ++ es from hes]
          rfl
    | first call =>
        simp only [step] at hs
        split at hs
        · rename_i hcall
          split at hs
          · cases hs
          · cases hs
            exact ⟨w, rfl, l, hlog, rfl⟩
          · rename_i lb c hfirst
            cases hs
            obtain ⟨hof, rfl⟩ := World.firstHalf_eq_some hfirst
            have hdials : w.dials = [] := by
              have hempty := (Bool.and_eq_true_iff.mp hcall).2
              exact List.isEmpty_iff.mp hempty
            refine ⟨w, rfl, hdials, ?_, rfl, [], l, rfl, ?_, rfl⟩
            · cases c with
              | remove index => exact hof
              | replace ptrs strategy => exact hof
            · simpa using hlog
        · cases hs
    | second => cases hs
  · -- In a window: a decrement, a check, or the second half.
    have hview : Between x u w := hview
    have hepoch : w.epoch + 1 < 2 ^ 64 := by
      rw [← hview.same.2.2]
      exact hepoch
    cases e with
    | on e =>
        simp only [step, on] at hs
        split at hs
        · rename_i hdrop
          obtain ⟨u', hu', rfl⟩ := map_eq_ok.mp hs
          cases e with
          | drop g | dropCheck g => exact ⟨w, rfl, hview.check hplaced hepoch rfl hu'⟩
          | dropWrite d free =>
              obtain ⟨w', hw', hview'⟩ := hview.dropWrite hu'
              refine ⟨w', run_singleton.mpr hw', ?_⟩
              simpa [View, Event.checked] using hview'
          | _ => cases hdrop
        · cases hs
    | first call => cases hs
    | second =>
        simp only [step] at hs
        split at hs
        · cases hs
        · rename_i u' hu'
          cases hs
          exact hview.second hsync hplaced hepoch hu'

/-- A step changes the generation at most once. -/
theorem step_epoch_le [BalanceStrategy σ] {env : Env} {s s' : Halves σ} {e : HalfEvent σ}
    (hs : s.step env e = .ok s') : s'.world.epoch ≤ s.world.epoch + 1 := by
  cases e with
  | on e =>
      simp only [step, on] at hs
      split at hs
      · split at hs
        · cases hs
        · obtain ⟨w, hw, rfl⟩ := map_eq_ok.mp hs
          exact World.step_epoch_le hw
      · split at hs
        · obtain ⟨w, hw, rfl⟩ := map_eq_ok.mp hs
          have hle := World.step_epoch_le hw
          exact hle
        · cases hs
  | first call =>
      simp only [step] at hs
      split at hs
      · cases hs
      · split at hs
        · split at hs
          · cases hs
          · cases hs
            exact Nat.le_succ _
          · cases hs
            exact Nat.le_succ _
        · cases hs
  | second =>
      simp only [step] at hs
      split at hs
      · cases hs
      · rename_i x hx
        split at hs
        · cases hs
        · rename_i w hw
          cases hs
          unfold World.secondHalf at hw
          split at hw
          · obtain ⟨lb, -, hw⟩ := bind_eq_ok.mp hw
            cases hw
            exact le_rfl
          · cases hw
            exact le_rfl

/-- A run of fewer than `2 ^ 64` events does not wrap the generation. -/
theorem along_epoch [BalanceStrategy σ] {env : Env} {s : Halves σ} {es : List (HalfEvent σ)}
    (hlen : s.world.epoch + es.length < 2 ^ 64) :
    Along (step env) (fun s _ => s.world.epoch + 1 < 2 ^ 64) s es := by
  induction es generalizing s with
  | nil => trivial
  | cons e es ih =>
      rw [List.length_cons] at hlen
      refine ⟨by omega, fun s' hs => ih ?_⟩
      have := step_epoch_le hs
      omega

/-! ### Whole runs -/

/-- **Every run with split reconfigurations reaches the state of a run with whole ones.** Whenever
no reconfiguration is in progress the balancer, the dials, the connections and the pending drops
are those of the whole run, and so are the pool and, up to their order, the entries of the log. -/
theorem reconfigurations_atomic [BalanceStrategy σ] {env : Env} {w₀ : World σ} {s : Halves σ}
    {es : List (HalfEvent σ)} (h₀ : w₀.Initial) (hlen : es.length < 2 ^ 64)
    (hrun : run (step env) (whole w₀) es = .ok s) :
    ∃ w, run (World.step env) w₀ (gather (step env) commits (whole w₀) es) = .ok w ∧
      s.world.lb.metrics = w.lb.metrics ∧ s.world.drops = w.drops ∧
      (s.window = none → s.world.lb = w.lb ∧ s.world.dials = w.dials ∧ s.world.guards = w.guards ∧
        s.world.pool = w.pool ∧ s.world.log.Perm w.log) := by
  have hstart : Mirrors (whole w₀) w₀ :=
    ⟨World.initial_sync h₀, World.initial_placed h₀, w₀.log, ⟨.refl _, rfl⟩, rfl⟩
  have hepoch : w₀.epoch = 0 := by
    obtain ⟨lb, seeds, -, -, rfl⟩ := h₀
    rfl
  have halong : Along (step env) (fun s _ => s.world.epoch + 1 < 2 ^ 64) (whole w₀) es :=
    along_epoch (by rw [whole, hepoch]; omega)
  obtain ⟨w, hw, -, -, hview⟩ :=
    run_simulates_along (C := fun (s : Halves σ) _ => s.world.epoch + 1 < 2 ^ 64)
      (fun _ _ _ _ h hC => mirrors_halves h hC) hstart halong hrun
  refine ⟨w, hw, ?_⟩
  obtain ⟨u, - | x⟩ := s
  · obtain ⟨l, hlog, hu⟩ := hview
    obtain rfl : u = w.relog l := hu
    exact ⟨rfl, rfl, fun _ => ⟨rfl, rfl, rfl, hlog.replay, hlog.perm⟩⟩
  · obtain ⟨hmetrics, hdrops, -⟩ := Between.same hview
    exact ⟨hmetrics, hdrops, nofun⟩

/-- Two connections; the drop of the second is past its check when the removal of the first
backend begins, and both drops end in the window. -/
def busyWindow : List (HalfEvent Builtin) :=
  (Event.connecting 0 ++ Event.connecting 0 ++ [Event.dropCheck 1]).map .on ++
    [.first (.removeBackend 0), .on (.drop 0), .on (.dropWrite 0 true), .second]

theorem reconfigurations_atomic_busyWindow :
    ∃ s w, run (step Env.plain) (whole (World.ofSize 2 (.roundRobin ⟨0⟩))) busyWindow = .ok s ∧
      run (World.step Env.plain) (World.ofSize 2 (.roundRobin ⟨0⟩))
        (Event.connecting 0 ++ Event.connecting 0 ++
          [.dropCheck 1, .dropWrite 0 true, .removeBackend 0, .dropCheck 0]) = .ok w ∧
      s.world.lb = w.lb ∧ w.lb.metrics.map TunnelMetrics.activeConnections = [0] := by
  have hends : ends (step Env.plain) (fun s => decide (s.window.isNone ∧
      s.world.lb.metrics.map TunnelMetrics.activeConnections = [0]))
      (whole (World.ofSize 2 (.roundRobin ⟨0⟩))) busyWindow = true := by decide
  obtain ⟨s, hrun, hs⟩ := exists_run_of_ends hends
  obtain ⟨hnone, hactive⟩ := of_decide_eq_true hs
  obtain ⟨w, hw, -, -, hwhole⟩ := reconfigurations_atomic
    (World.initial_ofSize Nat.two_pos _) (by decide) hrun
  have hlb := (hwhole (Option.isNone_iff_eq_none.mp hnone)).1
  exact ⟨s, w, hrun, hw, hlb, hlb ▸ hactive⟩

end Halves

end RotaLb
