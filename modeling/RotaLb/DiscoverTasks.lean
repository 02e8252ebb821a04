import RotaLb.Reconcile
import RotaLb.Windows

/-!
# The Tasks of a `Discover`

`Discover::start` spawns a loop and keeps the sending half of its shutdown channel; `stop` sends,
and a second `start` overwrites the sender, which the first loop sees as a closed channel. A loop
asks the registry, waits for the lock of the balancer and reconciles under it, one removal or
addition after the other; `Discover::dial` and everyone who uses `load_balancer_arc` takes the
same lock. Only the drops of connections need no lock.

The poll interval is positive: `tokio::time::interval`, with which a loop begins, panics on a zero
one, and such a loop never asks.

`RotaLb.Discovery` treats a reconciliation as one step. Here it is as many steps as it has
removals and additions, several loops may be on their way at once, and connections are dropped
anywhere in between.

## Main results

* `one_live_loop`: **at most one loop is not told to end**, and it is the one `stop` would reach.
* `reconciled_in_sync`: **a reconciliation that comes to its end tracks exactly the ids its loop
  was given**, in every interleaving.
-/

namespace RotaLb

open Rust StepSystem

variable {σ : Type}

/-! ### The system -/

/-- Where a discovery loop stands. -/
inductive LoopPhase
  /-- At `select!`. -/
  | selecting
  /-- In `discover`. -/
  | discovering
  /-- At the lock of the balancer, with the descriptors found. -/
  | waiting (found : List BackendDescriptor)
  /-- In the removing loop, with the ids copied at the start and those not yet looked at. -/
  | removing (found : List BackendDescriptor) (current : List (Option String)) (ids : List String)
  /-- In the adding loop, with the descriptors not yet looked at. -/
  | adding (found : List BackendDescriptor) (current : List (Option String))
      (todo : List BackendDescriptor)
  | ended

/-- The loop holds the lock of the balancer. -/
def LoopPhase.reconciling : LoopPhase → Bool
  | .removing .. | .adding .. => true
  | _ => false

/-- How far a loop is from its end, in phases. -/
def LoopPhase.rank : LoopPhase → ℕ
  | .ended => 0
  | .selecting => 1
  | .removing .. | .adding .. => 2
  | .waiting _ => 3
  | .discovering => 4

/-- How far a reconciling loop is from giving back the lock, in rounds. -/
def LoopPhase.rounds : LoopPhase → ℕ
  | .removing found _ ids => ids.length + found.length + 2
  | .adding _ _ todo => todo.length + 1
  | _ => 0

/-- A loop with one round left has looked at every descriptor. -/
theorem LoopPhase.adding_of_rounds_eq_one {phase : LoopPhase} (h : phase.rounds = 1) :
    ∃ found current, phase = .adding found current [] := by
  cases phase with
  | removing found current ids => simp [rounds] at h
  | adding found current todo =>
      obtain rfl : todo = [] := by simpa [rounds] using h
      exact ⟨found, current, rfl⟩
  | selecting | discovering | waiting | ended => cases h

/-- A spawned loop. It is `signalled` when its receiver is ready: a message was sent, or the
sender is gone. -/
structure Loop where
  phase : LoopPhase
  signalled : Bool

/-- Who holds the lock of the balancer. -/
inductive LbHolder
  | client
  | loop (k : ℕ)
  deriving DecidableEq

/-- A `Discover`, its balancer, and the loops it has spawned. `shutdownTx` names the loop that the
stored sender belongs to. -/
structure Tasks (σ : Type) where
  world : World σ
  loops : List Loop
  shutdownTx : Option ℕ
  dropped : Bool
  holder : Option LbHolder

/-- One task goes on. -/
inductive TaskEvent (σ : Type)
  /-- `Discover::start`, with what `on_start` returned. -/
  | start (onStart : Except Error Unit)
  /-- `Discover::stop`. -/
  | stop
  /-- The `Discover` is dropped. -/
  | drop
  /-- Loop `k` takes the tick branch of `select!`. -/
  | tick (k : ℕ)
  /-- `discover` returns in loop `k`. -/
  | found (k : ℕ) (result : Except Error (List BackendDescriptor))
  /-- Loop `k` obtains the lock and copies the ids. -/
  | lock (k : ℕ)
  /-- One round of the removing loop. -/
  | removeNext (k : ℕ)
  /-- One round of the adding loop, with what the factory returns if it is called. -/
  | addNext (k : ℕ) (created : Except Error ℕ)
  /-- Loop `k` takes the shutdown branch of `select!`. -/
  | quit (k : ℕ)
  /-- A client, `Discover::dial` for one, obtains the lock. -/
  | clientLock
  | clientUnlock
  | balancer (e : Event σ)

/-- The event brings a loop nearer to its end. -/
def TaskEvent.finishing : TaskEvent σ → Bool
  | .found .. | .lock _ | .removeNext _ | .addNext .. | .quit _ => true
  | _ => false

namespace Tasks

/-- A `Discover` around a balancer, not started. -/
def fresh (w : World σ) : Tasks σ := ⟨w, [], none, false, none⟩

/-- The loop whose sender is stored is told to end, and the sender is gone. -/
def signal (s : Tasks σ) : Tasks σ :=
  { s with
    loops := match s.shutdownTx with
      | some k => s.loops.modify k fun l => { l with signalled := true }
      | none => s.loops
    shutdownTx := none }

/-- Loop `k` moves to another phase. -/
def goto (s : Tasks σ) (k : ℕ) (phase : LoopPhase) : Tasks σ :=
  { s with loops := s.loops.modify k fun l => { l with phase } }

/-- Run `f` on loop `k`. -/
def onLoop (s : Tasks σ) (k : ℕ) (f : Loop → Except Fault (Tasks σ)) : Except Fault (Tasks σ) :=
  match s.loops[k]? with
  | some l => f l
  | none => .error .disabled

/-- An event of the balancer. -/
def onWorld [BalanceStrategy σ] (env : Env) (s : Tasks σ) (e : Event σ) : Except Fault (Tasks σ) :=
  (s.world.step env e).map fun world => { s with world }

/-- One round of the removing loop of loop `k`. -/
def removeNext [BalanceStrategy σ] (env : Env) (s : Tasks σ) (k : ℕ) :
    LoopPhase → Except Fault (Tasks σ)
  | .removing found current [] => .ok (s.goto k (.adding found current found))
  | .removing found current (id :: ids) =>
    if id ∈ found.map BackendDescriptor.id then .ok (s.goto k (.removing found current ids))
    else (s.goto k (.removing found current ids)).onWorld env (.removeBackendById id)
  | _ => .error .disabled

/-- One round of the adding loop of loop `k`. At its end, and at an error of the factory, the lock
is released. -/
def addNext [BalanceStrategy σ] (env : Env) (s : Tasks σ) (k : ℕ) :
    Except Error ℕ → LoopPhase → Except Fault (Tasks σ)
  | _, .adding _ _ [] => .ok { s.goto k .selecting with holder := none }
  | .error _, .adding found current (d :: todo) =>
    if current.contains (some d.id) then .ok (s.goto k (.adding found current todo))
    else .ok { s.goto k .selecting with holder := none }
  | .ok ptr, .adding found current (d :: todo) =>
    if current.contains (some d.id) then .ok (s.goto k (.adding found current todo))
    else (s.goto k (.adding found current todo)).onWorld env (.addBackendWithId d.id ptr)
  | _, _ => .error .disabled

/-- One event. -/
def step [BalanceStrategy σ] (env : Env) (s : Tasks σ) : TaskEvent σ → Except Fault (Tasks σ)
  | .start onStart =>
    if s.dropped then .error .disabled
    else
      match onStart with
      | .error _ => .ok s
      | .ok () => .ok { s.signal with
          loops := s.signal.loops ++ [⟨.selecting, false⟩]
          shutdownTx := some s.loops.length }
  | .stop => if s.dropped then .error .disabled else .ok s.signal
  | .drop => if s.dropped then .error .disabled else .ok { s.signal with dropped := true }
  | .tick k => s.onLoop k fun l =>
    match l.phase with
    | .selecting => .ok (s.goto k .discovering)
    | _ => .error .disabled
  | .found k result => s.onLoop k fun l =>
    match l.phase, result with
    | .discovering, .ok found => .ok (s.goto k (.waiting found))
    | .discovering, .error _ => .ok (s.goto k .selecting)
    | _, _ => .error .disabled
  | .lock k => s.onLoop k fun l =>
    match l.phase, s.holder with
    | .waiting found, none =>
      .ok { s.goto k (.removing found s.world.lb.ids s.world.lb.ids.reduceOption) with
        holder := some (.loop k) }
    | _, _ => .error .disabled
  | .removeNext k => s.onLoop k fun l => s.removeNext env k l.phase
  | .addNext k created => s.onLoop k fun l => s.addNext env k created l.phase
  | .quit k => s.onLoop k fun l =>
    match l.phase, l.signalled with
    | .selecting, true => .ok (s.goto k .ended)
    | _, _ => .error .disabled
  | .clientLock =>
    match s.holder with
    | none => .ok { s with holder := some .client }
    | some _ => .error .disabled
  | .clientUnlock =>
    if s.holder = some .client ∧ s.world.dials.isEmpty then .ok { s with holder := none }
    else .error .disabled
  | .balancer e =>
    if e.dropping || s.holder = some .client then s.onWorld env e else .error .disabled

/-! ### What one event does -/

/-- The state after a loop was spawned. -/
def spawned (s : Tasks σ) : Tasks σ :=
  { s.signal with
    loops := s.signal.loops ++ [⟨.selecting, false⟩]
    shutdownTx := some s.loops.length }

/-- Loop `k` releases the lock. -/
def released (s : Tasks σ) (k : ℕ) : Tasks σ := { s.goto k .selecting with holder := none }

/-- Every way in which an event leads to a next state. -/
inductive Effect [BalanceStrategy σ] (env : Env) (s : Tasks σ) : TaskEvent σ → Tasks σ → Prop
  | refused {e : Error} : Effect env s (.start (.error e)) s
  | started (hd : s.dropped = false) : Effect env s (.start (.ok ())) s.spawned
  | stopped : Effect env s .stop s.signal
  | dropped : Effect env s .drop { s.signal with dropped := true }
  /-- A loop moves on outside the lock. -/
  | moved {e : TaskEvent σ} {k : ℕ} {l : Loop} {phase : LoopPhase} (hl : s.loops[k]? = some l)
      (hold : l.phase.reconciling = false) (hnew : phase.reconciling = false)
      (hended : phase = .ended → l.signalled = true)
      (hrank : e.finishing = true → phase.rank < l.phase.rank) : Effect env s e (s.goto k phase)
  | locked {k : ℕ} {l : Loop} {found : List BackendDescriptor} (hl : s.loops[k]? = some l)
      (hphase : l.phase = .waiting found) (hfree : s.holder = none) :
      Effect env s (.lock k)
        { s.goto k (.removing found s.world.lb.ids s.world.lb.ids.reduceOption) with
          holder := some (.loop k) }
  /-- The removing loop passes over a listed id. -/
  | kept {k : ℕ} {l : Loop} {found : List BackendDescriptor} {current : List (Option String)}
      {id : String} {ids : List String} (hl : s.loops[k]? = some l)
      (hphase : l.phase = .removing found current (id :: ids))
      (hid : id ∈ found.map BackendDescriptor.id) :
      Effect env s (.removeNext k) (s.goto k (.removing found current ids))
  | removed {k : ℕ} {l : Loop} {found : List BackendDescriptor} {current : List (Option String)}
      {id : String} {ids : List String} {w : World σ} (hl : s.loops[k]? = some l)
      (hphase : l.phase = .removing found current (id :: ids))
      (hid : id ∉ found.map BackendDescriptor.id)
      (hw : s.world.step env (.removeBackendById id) = .ok w) :
      Effect env s (.removeNext k) { s.goto k (.removing found current ids) with world := w }
  /-- The removing loop ends. -/
  | swept {k : ℕ} {l : Loop} {found : List BackendDescriptor} {current : List (Option String)}
      (hl : s.loops[k]? = some l) (hphase : l.phase = .removing found current []) :
      Effect env s (.removeNext k) (s.goto k (.adding found current found))
  /-- The adding loop passes over a known id. -/
  | known {k : ℕ} {l : Loop} {found todo : List BackendDescriptor} {current : List (Option String)}
      {d : BackendDescriptor} {created : Except Error ℕ} (hl : s.loops[k]? = some l)
      (hphase : l.phase = .adding found current (d :: todo)) (hid : some d.id ∈ current) :
      Effect env s (.addNext k created) (s.goto k (.adding found current todo))
  | added {k : ℕ} {l : Loop} {found todo : List BackendDescriptor} {current : List (Option String)}
      {d : BackendDescriptor} {ptr : ℕ} {w : World σ} (hl : s.loops[k]? = some l)
      (hphase : l.phase = .adding found current (d :: todo)) (hid : some d.id ∉ current)
      (hw : s.world.step env (.addBackendWithId d.id ptr) = .ok w) :
      Effect env s (.addNext k (.ok ptr)) { s.goto k (.adding found current todo) with world := w }
  /-- The reconciliation ends, by its last descriptor or by an error of the factory. -/
  | released {k : ℕ} {l : Loop} {found todo : List BackendDescriptor}
      {current : List (Option String)} {created : Except Error ℕ} (hl : s.loops[k]? = some l)
      (hphase : l.phase = .adding found current todo) :
      Effect env s (.addNext k created) (s.released k)
  | clientLocked (hfree : s.holder = none) :
      Effect env s .clientLock { s with holder := some .client }
  | clientUnlocked (hclient : s.holder = some .client) (hd : s.world.dials = []) :
      Effect env s .clientUnlock { s with holder := none }
  | served {e : Event σ} {w : World σ} (he : e.dropping = true ∨ s.holder = some .client)
      (hw : s.world.step env e = .ok w) : Effect env s (.balancer e) { s with world := w }

/-- An event on a loop finds the loop. -/
theorem onLoop_eq_ok {s s' : Tasks σ} {k : ℕ} {f : Loop → Except Fault (Tasks σ)}
    (h : s.onLoop k f = .ok s') : ∃ l, s.loops[k]? = some l ∧ f l = .ok s' := by
  unfold onLoop at h
  split at h
  · exact ⟨_, ‹_›, h⟩
  · cases h

/-- **Every step is one of the listed effects.** -/
theorem step_effect [BalanceStrategy σ] {env : Env} {s s' : Tasks σ} {e : TaskEvent σ}
    (h : s.step env e = .ok s') : Effect env s e s' := by
  cases e with
  | start onStart =>
      simp only [step] at h
      split at h
      · cases h
      · rename_i hd
        split at h
        · cases h
          exact .refused
        · cases h
          exact .started (Bool.eq_false_of_not_eq_true hd)
  | stop =>
      simp only [step] at h
      split at h
      · cases h
      · cases h
        exact .stopped
  | drop =>
      simp only [step] at h
      split at h
      · cases h
      · cases h
        exact .dropped
  | tick k =>
      obtain ⟨l, hl, h⟩ := onLoop_eq_ok h
      split at h
      · rename_i hphase
        cases h
        exact .moved hl (by rw [hphase]; rfl) rfl (fun h => by cases h) fun h => by cases h
      · cases h
  | found k result =>
      obtain ⟨l, hl, h⟩ := onLoop_eq_ok h
      split at h
      · rename_i hphase _
        cases h
        exact .moved hl (by rw [hphase]; rfl) rfl (fun h => by cases h) fun _ => by
          simp [hphase, LoopPhase.rank]
      · rename_i hphase _
        cases h
        exact .moved hl (by rw [hphase]; rfl) rfl (fun h => by cases h) fun _ => by
          simp [hphase, LoopPhase.rank]
      · cases h
  | lock k =>
      obtain ⟨l, hl, h⟩ := onLoop_eq_ok h
      split at h
      · rename_i hphase hfree
        cases h
        exact .locked hl hphase hfree
      · cases h
  | removeNext k =>
      obtain ⟨l, hl, h⟩ := onLoop_eq_ok h
      unfold removeNext at h
      split at h
      · rename_i hphase
        cases h
        exact .swept hl hphase
      · rename_i hphase
        split at h
        · cases h
          exact .kept hl hphase ‹_›
        · obtain ⟨w, hw, rfl⟩ := map_eq_ok.mp h
          exact .removed hl hphase ‹_› hw
      · cases h
  | addNext k created =>
      obtain ⟨l, hl, h⟩ := onLoop_eq_ok h
      generalize hphase : l.phase = phase at h
      unfold addNext at h
      split at h
      · cases h
        exact .released hl hphase
      · split at h
        · rename_i hid
          cases h
          exact .known hl hphase (List.contains_iff_mem.mp hid)
        · cases h
          exact .released hl hphase
      · split at h
        · rename_i hid
          cases h
          exact .known hl hphase (List.contains_iff_mem.mp hid)
        · rename_i hid
          obtain ⟨w, hw, rfl⟩ := map_eq_ok.mp h
          exact .added hl hphase (fun hmem => hid (List.contains_iff_mem.mpr hmem)) hw
      · cases h
  | quit k =>
      obtain ⟨l, hl, h⟩ := onLoop_eq_ok h
      split at h
      · rename_i hphase hsignalled
        cases h
        exact .moved hl (by rw [hphase]; rfl) rfl (fun _ => hsignalled) fun _ => by
          simp [hphase, LoopPhase.rank]
      · cases h
  | clientLock =>
      simp only [step] at h
      split at h
      · cases h
        exact .clientLocked ‹_›
      · cases h
  | clientUnlock =>
      simp only [step] at h
      split at h
      · rename_i hclient
        cases h
        exact .clientUnlocked hclient.1 (List.isEmpty_iff.mp hclient.2)
      · cases h
  | balancer e =>
      simp only [step] at h
      split at h
      · rename_i he
        obtain ⟨w, hw, rfl⟩ := map_eq_ok.mp h
        exact .served (by simpa using he) hw
      · cases h

/-! ### Loops -/

/-- The loops after one of them has moved. -/
theorem getElem?_goto {s : Tasks σ} {j k : ℕ} {phase : LoopPhase} {l' : Loop}
    (h : (s.goto k phase).loops[j]? = some l') :
    ∃ l, s.loops[j]? = some l ∧ l'.signalled = l.signalled ∧
      l'.phase = if j = k then phase else l.phase := by
  rw [goto, List.getElem?_modify] at h
  obtain ⟨l, hl, rfl⟩ := Option.map_eq_some_iff.mp h
  refine ⟨l, hl, ?_, ?_⟩
  · split <;> rfl
  · by_cases hjk : j = k
    · simp [hjk]
    · simp [hjk, Ne.symm hjk]

theorem length_signal (s : Tasks σ) : s.signal.loops.length = s.loops.length := by
  cases htx : s.shutdownTx with
  | none => simp only [signal, htx]
  | some j => simp only [signal, htx, List.length_modify]

/-- A loop that is not told to end is the one whose sender is stored, and a loop ends only after
it was told to. -/
structure Live (s : Tasks σ) : Prop where
  tx : ∀ k, s.shutdownTx = some k → ∃ l, s.loops[k]? = some l ∧ l.signalled = false
  live : ∀ (k : ℕ) (l : Loop), s.loops[k]? = some l → l.signalled = false → s.shutdownTx = some k
  ended : ∀ (k : ℕ) (l : Loop), s.loops[k]? = some l → l.phase = .ended → l.signalled = true

/-- The signals are those of another state, and no loop has ended without one. -/
theorem Live.congr {s s' : Tasks σ} (h : Live s) (htx : s'.shutdownTx = s.shutdownTx)
    (hsignals : s'.loops.map Loop.signalled = s.loops.map Loop.signalled)
    (hended : ∀ (k : ℕ) (l : Loop), s'.loops[k]? = some l → l.phase = .ended →
      l.signalled = true) : Live s' := by
  have hget : ∀ {t t' : Tasks σ}, t'.loops.map Loop.signalled = t.loops.map Loop.signalled →
      ∀ {k : ℕ} {l' : Loop}, t'.loops[k]? = some l' →
        ∃ l, t.loops[k]? = some l ∧ l.signalled = l'.signalled := by
    intro t t' heq k l' hl'
    have hk := congrArg (·[k]?) heq
    simp only [List.getElem?_map, hl', Option.map_some] at hk
    exact Option.map_eq_some_iff.mp hk.symm
  refine ⟨fun k hk => ?_, fun k l hl hlive => ?_, hended⟩
  · obtain ⟨l, hl, hlive⟩ := h.tx k (htx ▸ hk)
    obtain ⟨l', hl', hsame⟩ := hget hsignals.symm hl
    exact ⟨l', hl', hsame.trans hlive⟩
  · obtain ⟨l', hl', hsame⟩ := hget hsignals hl
    rw [htx]
    exact h.live k l' hl' (hsame.trans hlive)

/-- Moving a loop keeps the signals. -/
theorem map_signalled_goto (s : Tasks σ) (k : ℕ) (phase : LoopPhase) :
    (s.goto k phase).loops.map Loop.signalled = s.loops.map Loop.signalled :=
  Keyed.map_modify_of_absorb fun _ => rfl

/-- A loop moves, and ends only if it was told to. -/
theorem Live.goto {s : Tasks σ} (h : Live s) {k : ℕ} {l : Loop} {phase : LoopPhase} {w : World σ}
    {dropped : Bool} {holder : Option LbHolder} (hl : s.loops[k]? = some l)
    (hended : phase = .ended → l.signalled = true) :
    Live ⟨w, (s.goto k phase).loops, s.shutdownTx, dropped, holder⟩ := by
  refine h.congr rfl (map_signalled_goto s k phase) fun j l' hl' hphase => ?_
  obtain ⟨l₀, hl₀, hsame, hphase'⟩ := getElem?_goto hl'
  rw [hsame]
  split at hphase'
  · rename_i hjk
    subst hjk
    cases hl.symm.trans hl₀
    exact hended (hphase'.symm.trans hphase)
  · exact h.ended j l₀ hl₀ (hphase'.symm.trans hphase)

/-- After a signal no loop is left that is not told to end. -/
theorem Live.signal {s : Tasks σ} (h : Live s) :
    Live s.signal ∧ ∀ (k : ℕ) (l : Loop), s.signal.loops[k]? = some l → l.signalled = true := by
  have hall : ∀ (k : ℕ) (l : Loop), s.signal.loops[k]? = some l → l.signalled = true := by
    intro k l hl
    by_contra hlive
    cases htx : s.shutdownTx with
    | none =>
        simp only [Tasks.signal, htx] at hl
        have := h.live k l hl (Bool.eq_false_of_not_eq_true hlive)
        simp [htx] at this
    | some j =>
        simp only [Tasks.signal, htx, List.getElem?_modify] at hl
        obtain ⟨l₀, hl₀, rfl⟩ := Option.map_eq_some_iff.mp hl
        by_cases hjk : j = k
        · simp [hjk] at hlive
        · simp only [hjk, if_false] at hlive
          have := h.live k l₀ hl₀ (Bool.eq_false_of_not_eq_true hlive)
          rw [htx] at this
          exact hjk (Option.some.inj this)
  refine ⟨⟨fun k hk => ?_, fun k l hl hlive => ?_, fun k l hl _ => hall k l hl⟩, hall⟩
  · cases hk
  · simp [hall k l hl] at hlive

/-- A new loop is the only one that is not told to end. -/
theorem Live.spawned {s : Tasks σ} (h : Live s) : Live s.spawned := by
  obtain ⟨-, hall⟩ := h.signal
  have hget : ∀ (k : ℕ) (l : Loop), s.spawned.loops[k]? = some l →
      l.signalled = true ∨ k = s.loops.length ∧ l = ⟨.selecting, false⟩ := by
    intro k l hl
    rw [Tasks.spawned, List.getElem?_append, length_signal] at hl
    split at hl
    · exact .inl (hall k l hl)
    · rename_i hge
      obtain ⟨hlt, rfl⟩ := List.getElem?_eq_some_iff.mp hl
      rw [List.length_singleton] at hlt
      exact .inr ⟨by omega, by simp⟩
  refine ⟨fun k hk => ?_, fun k l hl hlive => ?_, fun k l hl hended => ?_⟩
  · cases hk
    refine ⟨⟨.selecting, false⟩, ?_, rfl⟩
    rw [Tasks.spawned, ← length_signal]
    exact List.getElem?_concat_length
  · rcases hget k l hl with hs | ⟨rfl, -⟩
    · rw [hs] at hlive
      cases hlive
    · rfl
  · rcases hget k l hl with hs | ⟨-, rfl⟩
    · exact hs
    · cases hended

/-- **Every event keeps the senders and the loops together.** -/
theorem step_live [BalanceStrategy σ] {env : Env} {s s' : Tasks σ} {e : TaskEvent σ} (h : Live s)
    (hs : s.step env e = .ok s') : Live s' := by
  cases step_effect hs with
  | refused => exact h
  | started hd => exact h.spawned
  | stopped => exact h.signal.1
  | dropped => exact h.signal.1.congr rfl rfl h.signal.1.ended
  | moved hl _ _ hended => exact h.goto hl hended
  | locked hl => exact h.goto hl fun h => by cases h
  | kept hl => exact h.goto hl fun h => by cases h
  | removed hl => exact h.goto hl fun h => by cases h
  | swept hl => exact h.goto hl fun h => by cases h
  | known hl => exact h.goto hl fun h => by cases h
  | added hl => exact h.goto hl fun h => by cases h
  | released hl => exact h.goto hl fun h => by cases h
  | clientLocked | clientUnlocked | served => exact h.congr rfl rfl h.ended

/-! ### The lock -/

end Tasks

/-- The ids that the removing loop leaves: those without an id, and the listed ones. -/
def survivors (current : List (Option String)) (found : List BackendDescriptor) :
    List (Option String) :=
  current.filter fun id => id.all (· ∈ found.map BackendDescriptor.id)

/-- The survivors and the wanted ids are the listed ones. -/
theorem some_mem_survivors_append_wanted {current : List (Option String)}
    {found : List BackendDescriptor} {id : String} :
    some id ∈ survivors current found ++ (wanted current found).map (fun d => some d.id) ↔
      id ∈ found.map BackendDescriptor.id := by
  rw [List.mem_append, survivors, List.mem_filter]
  constructor
  · rintro (⟨-, hlisted⟩ | hwant)
    · simpa using hlisted
    · obtain ⟨d, hd, heq⟩ := List.mem_map.mp hwant
      cases heq
      exact List.mem_map_of_mem (List.mem_of_mem_filter hd)
  · intro hid
    by_cases hmem : some id ∈ current
    · exact .inl ⟨hmem, by simpa using hid⟩
    · obtain ⟨d, hd, rfl⟩ := List.mem_map.mp hid
      exact .inr (List.mem_map.mpr ⟨d, List.mem_filter.mpr ⟨hd, by simpa using hmem⟩, rfl⟩)

/-- What the balancer tracks while a loop reconciles: the ids copied at the start without those
removed so far, then the survivors and the ids added so far. -/
def LoopPhase.Midway (tracked : List (Option String)) : LoopPhase → Prop
  | .removing found current ids => ∃ done, current.reduceOption = done ++ ids ∧
      tracked = Keyed.eraseKeys id (· ∈ found.map BackendDescriptor.id) done current
  | .adding found current todo => ∃ done, found = done ++ todo ∧
      tracked = survivors current found ++ (wanted current done).map fun d => some d.id
  | _ => True

/-- Outside the lock nothing is said. -/
theorem LoopPhase.midway_of_not_reconciling {phase : LoopPhase}
    (h : phase.reconciling = false) (tracked : List (Option String)) : phase.Midway tracked := by
  cases phase with
  | removing | adding => cases h
  | selecting | discovering | waiting | ended => trivial

/-- Dropping a connection changes neither the ids nor the dials. -/
theorem World.step_dropping [BalanceStrategy σ] {env : Env} {w w' : World σ} {e : Event σ}
    (he : e.dropping = true) (hs : w.step env e = .ok w') :
    w'.lb.ids = w.lb.ids ∧ w'.dials = w.dials := by
  cases World.step_effect hs with
  | idle => exact ⟨rfl, rfl⟩
  | dropped | stale | checked | written | contended => exact ⟨rfl, rfl⟩
  | moved he' => rcases he' with ⟨_, _, _, rfl⟩ | rfl <;> cases he
  | entered _ he' => rcases he' with ⟨rfl, -⟩ | ⟨_, rfl, -⟩ <;> cases he
  | left _ he' =>
      cases e with
      | drop | dropCheck | dropWrite => cases he'
      | _ => cases he
  | routed | succeeded | errored | connected | returned | cancelled | replaced | drained
  | undrained | strategySet => cases he

/-- A removal by id always returns and takes out the first entry with that id. -/
theorem World.removeBackendById_ids [BalanceStrategy σ] (env : Env) {w : World σ}
    (hd : w.dials = []) (h : w.Sync) (id : String) :
    ∃ w', w.step env (.removeBackendById id) = .ok w' ∧ w'.dials = [] ∧
      w'.lb.ids = w.lb.ids.eraseP (· = some id) := by
  obtain ⟨rows, hrows⟩ := h.hasRows
  obtain ⟨w', hw', hrows', hd', -⟩ := World.step_removeBackendById env hd hrows id
  refine ⟨w', hw', hd', ?_⟩
  rw [hrows'.ids, hrows.ids, List.eraseP_map]
  rfl

namespace Tasks

/-- **Mutual exclusion.** A loop reconciles while it holds the lock, no dial is in progress unless
a client holds it, and a reconciliation finds the balancer as it left it. -/
structure Locked (s : Tasks σ) : Prop where
  sync : s.world.Sync
  dials : s.holder ≠ some .client → s.world.dials = []
  holds : ∀ (k : ℕ) (l : Loop), s.loops[k]? = some l →
    (l.phase.reconciling = true ↔ s.holder = some (.loop k))
  holder : ∀ k, s.holder = some (.loop k) → k < s.loops.length
  midway : ∀ (k : ℕ) (l : Loop), s.loops[k]? = some l → l.phase.Midway s.world.lb.ids

variable {s s' : Tasks σ}

/-- A loop other than the holder says nothing about the balancer. -/
theorem Locked.midway_of_ne (h : Locked s) {k : ℕ} {l : Loop} (hl : s.loops[k]? = some l)
    (hne : s.holder ≠ some (.loop k)) (tracked : List (Option String)) :
    l.phase.Midway tracked :=
  LoopPhase.midway_of_not_reconciling
    (Bool.eq_false_of_not_eq_true fun hr => hne ((h.holds k l hl).mp hr)) tracked

/-- Nothing changes but signals, and loops that start. -/
theorem Locked.congr (h : Locked s) (hworld : s'.world = s.world) (hholder : s'.holder = s.holder)
    (hlen : s.loops.length ≤ s'.loops.length)
    (hphases : ∀ (k : ℕ) (l' : Loop), s'.loops[k]? = some l' →
      (∃ l, s.loops[k]? = some l ∧ l'.phase = l.phase) ∨
        s.loops.length ≤ k ∧ l'.phase = .selecting) : Locked s' := by
  refine ⟨hworld ▸ h.sync, fun hne => ?_, fun k l' hl' => ?_, fun k hk => ?_, fun k l' hl' => ?_⟩
  · rw [hworld]
    exact h.dials (hholder ▸ hne)
  · rw [hholder]
    rcases hphases k l' hl' with ⟨l, hl, hphase⟩ | ⟨hge, hphase⟩
    · rw [hphase]
      exact h.holds k l hl
    · have hne : s.holder ≠ some (.loop k) := fun hk => by
        have := h.holder k hk
        omega
      simp [hphase, LoopPhase.reconciling, hne]
  · exact lt_of_lt_of_le (h.holder k (hholder ▸ hk)) hlen
  · rw [hworld]
    rcases hphases k l' hl' with ⟨l, hl, hphase⟩ | ⟨-, hphase⟩
    · rw [hphase]
      exact h.midway k l hl
    · rw [hphase]
      trivial

/-- The phases after a signal. -/
theorem getElem?_signal {k : ℕ} {l' : Loop} (h : s.signal.loops[k]? = some l') :
    ∃ l, s.loops[k]? = some l ∧ l'.phase = l.phase := by
  cases htx : s.shutdownTx with
  | none =>
      simp only [signal, htx] at h
      exact ⟨l', h, rfl⟩
  | some j =>
      simp only [signal, htx, List.getElem?_modify] at h
      obtain ⟨l, hl, rfl⟩ := Option.map_eq_some_iff.mp h
      refine ⟨l, hl, ?_⟩
      split <;> rfl

/-- A signal changes no phase. -/
theorem Locked.signal (h : Locked s) : Locked s.signal :=
  h.congr rfl rfl (length_signal s).ge fun _ _ hl' => .inl (getElem?_signal hl')

/-- A new loop waits at `select!`. -/
theorem Locked.spawned (h : Locked s) : Locked s.spawned := by
  refine h.congr rfl rfl ?_ fun k l' hl' => ?_
  · simp [Tasks.spawned, length_signal]
  · rw [Tasks.spawned, List.getElem?_append] at hl'
    split at hl'
    · exact .inl (getElem?_signal hl')
    · rename_i hge
      rw [length_signal] at hge
      obtain ⟨-, rfl⟩ := List.getElem?_eq_some_iff.mp hl'
      exact .inr ⟨by omega, by simp⟩

/-- A loop moves outside the lock. -/
theorem Locked.goto (h : Locked s) {k : ℕ} {l : Loop} {phase : LoopPhase}
    (hl : s.loops[k]? = some l) (hold : l.phase.reconciling = false)
    (hnew : phase.reconciling = false) : Locked (s.goto k phase) := by
  refine ⟨h.sync, h.dials, fun j l' hl' => ?_, fun j hj => ?_, fun j l' hl' => ?_⟩
  · obtain ⟨l₀, hl₀, -, hphase⟩ := getElem?_goto hl'
    rw [hphase]
    split
    · rename_i hjk
      subst hjk
      cases hl.symm.trans hl₀
      rw [hnew, ← hold]
      exact h.holds j l hl
    · exact h.holds j l₀ hl₀
  · rw [Tasks.goto, List.length_modify]
    exact h.holder j hj
  · obtain ⟨l₀, hl₀, -, hphase⟩ := getElem?_goto hl'
    rw [hphase]
    split
    · exact LoopPhase.midway_of_not_reconciling hnew _
    · exact h.midway j l₀ hl₀

/-- A loop takes the lock, works under it, or releases it. -/
theorem Locked.inside (h : Locked s) {k : ℕ} {l : Loop} {phase : LoopPhase} {w : World σ}
    {tx : Option ℕ} {dropped : Bool} {holder : Option LbHolder} (hl : s.loops[k]? = some l)
    (hfree : s.holder = none ∨ s.holder = some (.loop k)) (hsync : w.Sync) (hd : w.dials = [])
    (hholder : holder = if phase.reconciling then some (.loop k) else none)
    (hmid : phase.Midway w.lb.ids) :
    Locked ⟨w, (s.goto k phase).loops, tx, dropped, holder⟩ := by
  have hlt : k < s.loops.length := (List.getElem?_eq_some_iff.mp hl).1
  have hnot : ∀ j, j ≠ k → s.holder ≠ some (.loop j) := by
    rintro j hj hs
    rcases hfree with hf | hf <;> rw [hf] at hs <;> cases hs
    exact hj rfl
  refine ⟨hsync, fun _ => hd, fun j l' hl' => ?_, fun j hj => ?_, fun j l' hl' => ?_⟩
  · obtain ⟨l₀, hl₀, -, hphase⟩ := getElem?_goto hl'
    by_cases hjk : j = k
    · rw [hphase, if_pos hjk, hholder, hjk]
      cases phase.reconciling <;> simp
    · rw [hphase, if_neg hjk, h.holds j l₀ hl₀, hholder]
      have hne := hnot j hjk
      cases phase.reconciling <;> simp [hne, Ne.symm hjk]
  · rw [Tasks.goto, List.length_modify]
    rw [hholder] at hj
    split at hj
    · cases hj
      exact hlt
    · cases hj
  · obtain ⟨l₀, hl₀, -, hphase⟩ := getElem?_goto hl'
    rw [hphase]
    split
    · exact hmid
    · rename_i hjk
      exact h.midway_of_ne hl₀ (hnot j hjk) _

/-- The holder of the lock reconciles. -/
theorem Locked.holder_of_phase (h : Locked s) {k : ℕ} {l : Loop} (hl : s.loops[k]? = some l)
    (hr : l.phase.reconciling = true) : s.holder = some (.loop k) ∧ s.world.dials = [] := by
  have hk := (h.holds k l hl).mp hr
  refine ⟨hk, h.dials ?_⟩
  rw [hk]
  simp

/-- A round of the removing loop that removes an id. -/
theorem Locked.removed (h : Locked s) [BalanceStrategy σ] {env : Env} {k : ℕ} {l : Loop}
    {found : List BackendDescriptor} {current : List (Option String)} {id : String}
    {ids : List String} {w : World σ} (hl : s.loops[k]? = some l)
    (hphase : l.phase = .removing found current (id :: ids))
    (hid : id ∉ found.map BackendDescriptor.id)
    (hw : s.world.step env (.removeBackendById id) = .ok w) :
    Locked { s.goto k (.removing found current ids) with world := w } := by
  obtain ⟨hk, hd⟩ := h.holder_of_phase hl (by rw [hphase]; rfl)
  obtain ⟨w', hw', hd', hids⟩ := World.removeBackendById_ids env hd h.sync id
  cases hw.symm.trans hw'
  obtain ⟨done, hdone, htracked⟩ : LoopPhase.Midway s.world.lb.ids (.removing ..) :=
    hphase ▸ h.midway k l hl
  refine h.inside hl (.inr hk) (World.step_sync h.sync hw) hd' (by rw [← hk]; rfl) ?_
  refine ⟨done ++ [id], by rw [hdone, List.append_assoc]; rfl, ?_⟩
  rw [Keyed.eraseKeys_concat, if_neg (by simpa using hid), ← htracked]
  exact hids

/-- A round of the adding loop that adds a backend. -/
theorem Locked.added (h : Locked s) [BalanceStrategy σ] {env : Env} {k : ℕ} {l : Loop}
    {found todo : List BackendDescriptor} {current : List (Option String)} {d : BackendDescriptor}
    {ptr : ℕ} {w : World σ} (hl : s.loops[k]? = some l)
    (hphase : l.phase = .adding found current (d :: todo)) (hid : some d.id ∉ current)
    (hw : s.world.step env (.addBackendWithId d.id ptr) = .ok w) :
    Locked { s.goto k (.adding found current todo) with world := w } := by
  obtain ⟨hk, hd⟩ := h.holder_of_phase hl (by rw [hphase]; rfl)
  obtain ⟨done, hdone, htracked⟩ : LoopPhase.Midway s.world.lb.ids (.adding ..) :=
    hphase ▸ h.midway k l hl
  have hsync := World.step_sync h.sync hw
  rw [World.step_addBackendWithId env hd] at hw
  cases hw
  refine h.inside hl (.inr hk) hsync hd (by rw [← hk]; rfl) ?_
  refine ⟨done ++ [d], by rw [hdone, List.append_assoc]; rfl, ?_⟩
  have hwant : wanted current (done ++ [d]) = wanted current done ++ [d] := by
    simp [wanted, List.filter_append, hid]
  rw [hwant, List.map_append, ← List.append_assoc, ← htracked]
  rfl

/-- **Every event keeps the lock's promise.** -/
theorem step_locked [BalanceStrategy σ] {env : Env} {e : TaskEvent σ} (h : Locked s)
    (hs : s.step env e = .ok s') : Locked s' := by
  cases step_effect hs with
  | refused => exact h
  | started hd => exact h.spawned
  | stopped => exact h.signal
  | dropped => exact h.signal.congr rfl rfl le_rfl fun k l hl => .inl ⟨l, hl, rfl⟩
  | moved hl hold hnew => exact h.goto hl hold hnew
  | locked hl hphase hfree =>
      exact h.inside hl (.inl hfree) h.sync (h.dials (by simp [hfree])) rfl ⟨[], rfl, rfl⟩
  | @kept _ _ _ _ id _ hl hphase hid =>
      obtain ⟨hk, hd⟩ := h.holder_of_phase hl (by rw [hphase]; rfl)
      obtain ⟨done, hdone, htracked⟩ : LoopPhase.Midway s.world.lb.ids (.removing ..) :=
        hphase ▸ h.midway _ _ hl
      refine h.inside hl (.inr hk) h.sync hd (by exact hk) ⟨done ++ [id], ?_, ?_⟩
      · rw [hdone, List.append_assoc]
        rfl
      · rw [Keyed.eraseKeys_concat, if_pos (by simpa using hid), ← htracked]
  | removed hl hphase hid hw => exact h.removed hl hphase hid hw
  | swept hl hphase =>
      obtain ⟨hk, hd⟩ := h.holder_of_phase hl (by rw [hphase]; rfl)
      obtain ⟨done, hdone, htracked⟩ : LoopPhase.Midway s.world.lb.ids (.removing ..) :=
        hphase ▸ h.midway _ _ hl
      refine h.inside hl (.inr hk) h.sync hd (by exact hk) ⟨[], rfl, ?_⟩
      -- all the ids have been looked at
      rw [List.append_nil] at hdone
      rw [htracked, ← hdone, List.reduceOption, Keyed.eraseKeys_filterMap]
      exact (List.append_nil _).symm
  | @known _ _ _ _ _ d _ hl hphase hid =>
      obtain ⟨hk, hd⟩ := h.holder_of_phase hl (by rw [hphase]; rfl)
      obtain ⟨done, hdone, htracked⟩ : LoopPhase.Midway s.world.lb.ids (.adding ..) :=
        hphase ▸ h.midway _ _ hl
      refine h.inside hl (.inr hk) h.sync hd (by exact hk) ⟨done ++ [d], ?_, ?_⟩
      · rw [hdone, List.append_assoc]
        rfl
      · rw [htracked]
        simp [wanted, List.filter_append, hid]
  | added hl hphase hid hw => exact h.added hl hphase hid hw
  | released hl hphase =>
      obtain ⟨hk, hd⟩ := h.holder_of_phase hl (by rw [hphase]; rfl)
      exact h.inside hl (.inr hk) h.sync hd rfl trivial
  | clientLocked hfree =>
      refine ⟨h.sync, fun hne => absurd rfl hne, fun k l hl => ?_, fun k hk => ?_, h.midway⟩
      · rw [h.holds k l hl, hfree]
        simp
      · cases hk
  | clientUnlocked hclient hd =>
      refine ⟨h.sync, fun _ => hd, fun k l hl => ?_, fun k hk => ?_, h.midway⟩
      · rw [h.holds k l hl, hclient]
        simp
      · cases hk
  | served he hw =>
      refine ⟨World.step_sync h.sync hw, fun hne => ?_, h.holds, h.holder, fun k l hl => ?_⟩
      · rcases he with he | he
        · rw [(World.step_dropping he hw).2]
          exact h.dials hne
        · exact absurd he hne
      · rcases he with he | he
        · rw [(World.step_dropping he hw).1]
          exact h.midway k l hl
        · exact h.midway_of_ne hl (by simp [he]) _

/-! ### Whole runs -/

/-- A `Discover` as `new` makes it, around a balancer in any reachable state. The balancer is
moved into it, so no dial is in progress. -/
def Start [BalanceStrategy σ] (env : Env) (s : Tasks σ) : Prop :=
  ∃ w, Reaches (World.step env) World.Initial w ∧ w.dials = [] ∧ s = fresh w

theorem Start.live [BalanceStrategy σ] {env : Env} (h : Start env s) : Live s := by
  obtain ⟨w, -, -, rfl⟩ := h
  refine ⟨fun k hk => ?_, fun k l hl => ?_, fun k l hl => ?_⟩
  · cases hk
  · cases hl
  · cases hl

theorem Start.locked [BalanceStrategy σ] {env : Env} (h : Start env s) : Locked s := by
  obtain ⟨w, hw, hd, rfl⟩ := h
  refine ⟨World.reaches_sync hw, fun _ => hd, fun k l hl => ?_, fun k hk => ?_, fun k l hl => ?_⟩
  · cases hl
  · cases hk
  · cases hl

section Runs

variable [BalanceStrategy σ] {env : Env}

theorem reaches_live (h : Reaches (step env) (Start env) s) : Live s :=
  h.invariant (fun _ => Start.live) fun _ _ _ => step_live

theorem reaches_locked (h : Reaches (step env) (Start env) s) : Locked s :=
  h.invariant (fun _ => Start.locked) fun _ _ _ => step_locked

/-- **One loop at a time is not told to end.** With a positive poll interval, in every reachable
state, after any starts, stops and reconciliations, the stored sender belongs to the one loop that
has not been told to end, no loop ends before it was told to, and after `stop`, and when the
`Discover` is dropped, all are. -/
theorem one_live_loop (h : Reaches (step env) (Start env) s) :
    (∀ (k : ℕ) (l : Loop), s.loops[k]? = some l →
      (l.signalled = false ↔ s.shutdownTx = some k) ∧ (l.phase = .ended → l.signalled = true)) ∧
    ∀ e s', e = .stop ∨ e = .drop → s.step env e = .ok s' →
      ∀ (k : ℕ) (l : Loop), s'.loops[k]? = some l → l.signalled = true := by
  have hlive := reaches_live h
  refine ⟨fun k l hl => ⟨⟨hlive.live k l hl, fun hk => ?_⟩, hlive.ended k l hl⟩, ?_⟩
  · obtain ⟨l', hl', hsame⟩ := hlive.tx k hk
    cases hl.symm.trans hl'
    exact hsame
  · rintro e s' (rfl | rfl) hs
    · simp only [step] at hs
      split at hs
      · cases hs
      · cases hs
        exact hlive.signal.2
    · simp only [step] at hs
      split at hs
      · cases hs
      · cases hs
        exact hlive.signal.2

/-- **A reconciliation tracks what its loop was given, in every interleaving.** At most one loop
reconciles at a time. Whatever connections were dropped in between and however many other loops
are on their way, a reconciliation that has come to its last descriptor without an error leaves
the ids it kept and those it added, in this order, and so exactly the listed ids. -/
theorem reconciled_in_sync (h : Reaches (step env) (Start env) s) :
    (∀ (j k : ℕ) (l l' : Loop), s.loops[j]? = some l → s.loops[k]? = some l' →
      l.phase.reconciling = true → l'.phase.reconciling = true → j = k) ∧
    ∀ (k : ℕ) (l : Loop) found current, s.loops[k]? = some l →
      l.phase = .adding found current [] →
      s.world.lb.ids = survivors current found ++ (wanted current found).map (fun d => some d.id) ∧
      ∀ id, some id ∈ s.world.lb.ids ↔ id ∈ found.map BackendDescriptor.id := by
  have hlocked := reaches_locked h
  refine ⟨fun j k l l' hl hl' hr hr' => ?_, fun k l found current hl hphase => ?_⟩
  · have hj := (hlocked.holds j l hl).mp hr
    have hk := (hlocked.holds k l' hl').mp hr'
    rw [hj] at hk
    cases hk
    rfl
  · obtain ⟨done, hdone, htracked⟩ : LoopPhase.Midway s.world.lb.ids (.adding ..) :=
      hphase ▸ hlocked.midway k l hl
    rw [List.append_nil] at hdone
    rw [htracked, ← hdone]
    exact ⟨rfl, fun id => some_mem_survivors_append_wanted⟩

end Runs

/-! ### Two loops and a connection -/

/-- A connection to the only backend is open when the loop is started a second time and both
loops reconcile, one after the other; it is dropped in two halves under the lock of the second. -/
def twoLoops : List (TaskEvent Builtin) :=
  .clientLock :: (Event.connecting 0).map .balancer ++
    [.clientUnlock, .start (.ok ()), .tick 0, .start (.ok ()), .tick 1,
      .found 1 (.ok [.new "b" "h:2", .new "c" "h:3"]), .found 0 (.ok [.new "a" "h:1"]),
      .lock 0, .removeNext 0, .addNext 0 (.ok 7), .addNext 0 (.ok 0),
      .lock 1, .balancer (.dropCheck 0), .removeNext 1, .removeNext 1, .addNext 1 (.ok 8),
      .balancer (.dropWrite 0 true), .addNext 1 (.ok 9)]

theorem start_ofSize {n : ℕ} (hn : 0 < n) (strategy : Builtin) :
    Start Env.plain (fresh (World.ofSize n strategy)) :=
  ⟨_, ⟨_, [], World.initial_ofSize hn strategy, rfl⟩, rfl, rfl⟩

/-- The first loop is told to end by the second `start`, and the second one by `stop`. -/
theorem one_live_loop_twoLoops :
    ∃ s s', run (step Env.plain) (fresh (World.ofSize 1 (Builtin.roundRobin ⟨0⟩)))
        twoLoops = .ok s ∧
      s.loops.map Loop.signalled = [true, false] ∧ s.shutdownTx = some 1 ∧
      s.step Env.plain .stop = .ok s' ∧
      ∀ (k : ℕ) (l : Loop), s'.loops[k]? = some l → l.signalled = true := by
  have hends : ends (step Env.plain) (fun s => decide (s.loops.map Loop.signalled = [true, false] ∧
      s.shutdownTx = some 1 ∧ s.dropped = false))
      (fresh (World.ofSize 1 (Builtin.roundRobin ⟨0⟩))) twoLoops = true := by decide
  obtain ⟨s, hrun, hs⟩ := exists_run_of_ends hends
  obtain ⟨hsignalled, htx, hd⟩ := of_decide_eq_true hs
  have hstop : s.step Env.plain .stop = .ok s.signal := by simp [step, hd]
  exact ⟨s, s.signal, hrun, hsignalled, htx, hstop,
    (one_live_loop ⟨_, _, start_ofSize Nat.one_pos _, hrun⟩).2 _ _ (.inl rfl) hstop⟩

/-- The second loop tracks what it was given, and not what the first one was. -/
theorem reconciled_in_sync_twoLoops :
    ∃ s l found current,
      run (step Env.plain) (fresh (World.ofSize 1 (Builtin.roundRobin ⟨0⟩))) twoLoops = .ok s ∧
      s.loops[1]? = some l ∧ l.phase = .adding found current [] ∧
      s.world.lb.ids = [none, some "b", some "c"] ∧
      ∀ id, some id ∈ s.world.lb.ids ↔ id ∈ found.map BackendDescriptor.id := by
  have hends : ends (step Env.plain) (fun s => decide (s.world.lb.ids = [none, some "b", some "c"] ∧
      s.loops[1]?.map (fun l => l.phase.rounds) = some 1))
      (fresh (World.ofSize 1 (Builtin.roundRobin ⟨0⟩))) twoLoops = true := by decide
  obtain ⟨s, hrun, hs⟩ := exists_run_of_ends hends
  obtain ⟨hids, hphase⟩ := of_decide_eq_true hs
  obtain ⟨l, hl, hrounds⟩ := Option.map_eq_some_iff.mp hphase
  obtain ⟨found, current, hadding⟩ := LoopPhase.adding_of_rounds_eq_one hrounds
  exact ⟨s, l, found, current, hrun, hl, hadding, hids,
    ((reconciled_in_sync ⟨_, _, start_ofSize Nat.one_pos _, hrun⟩).2 1 l _ _ hl hadding).2⟩

end Tasks

end RotaLb
