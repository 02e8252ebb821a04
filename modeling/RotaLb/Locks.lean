import RotaLb.Steps
import RotaLb.Refinement

/-!
# The Balancer at the Granularity of its Locks

In `RotaLb.World` a critical section is one step. Here it is not: a task waits for the metrics
lock (an `RwLock`) or the strategy lock (a `Mutex`), obtains it, runs its assignments one by
one, and releases it, and any other task may run between two of these. What the other tasks
can do meanwhile is decided by the locks alone:

* a call of `dial_with_options` obtains the metrics lock, *then* waits for the strategy lock
  with the metrics lock in hand, picks, counts the dial in two assignments, and releases both;
* `handle_dial_success` and `handle_dial_error` take the metrics lock and, after releasing
  it, the strategy lock;
* the drop guard does not wait: its `try_write` fails while the metrics lock is taken in any
  way, and its decrement is then skipped;
* `metrics()` and `is_draining()` hold a read lock, `strategy_name()` holds the strategy lock;
* a waiting call can be dropped, which releases what it holds.

The locks are granted in any order, which covers the first-come-first-served order of the
runtime's locks. A reconfiguration holds `&mut self`, so no call, dial or reader is there with
it; it is one step, and waits for a drop guard inside its section.
-/

namespace RotaLb

open Rust StepSystem

variable {σ : Type}

/-! ### Assignments -/

/-- One assignment of a critical section to a row of the metrics. -/
inductive Assign
  /-- `active_connections += 1` -/
  | incActive
  /-- `total_dials += 1` -/
  | incDials
  /-- `recent_errors = 0` -/
  | clearRecent
  /-- `active_connections.saturating_sub(1)` -/
  | decActive
  /-- `total_errors.saturating_add(1)` -/
  | incErrors
  /-- `recent_errors.saturating_add(1)` -/
  | incRecent
  deriving DecidableEq

/-- What an assignment does to its row. -/
def Assign.apply : Assign → TunnelMetrics → TunnelMetrics
  | .incActive, m => { m with activeConnections := m.activeConnections + 1 }
  | .incDials, m => { m with totalDials := m.totalDials + 1 }
  | .clearRecent, m => { m with recentErrors := 0 }
  | .decActive, m => { m with activeConnections := saturatingDec m.activeConnections }
  | .incErrors, m => { m with totalErrors := saturatingInc64 m.totalErrors }
  | .incRecent, m => { m with recentErrors := saturatingInc m.recentErrors }

/-- A row after a list of assignments. -/
def Assign.applyAll (as : List Assign) (m : TunnelMetrics) : TunnelMetrics :=
  as.foldl (fun m a => a.apply m) m

/-- The assignments of `dial_with_options` after its pick. -/
def Assign.countDial : List Assign := [.incActive, .incDials]

/-- The assignment of the drop guard. -/
def Assign.dropGuard : List Assign := [.decActive]

/-- The assignments of a dial that waits for the metrics lock to record its end. -/
def Phase.assigns : Phase → Option (List Assign)
  | .successMetrics => some [.clearRecent]
  | .errorMetrics _ => some [.decActive, .incErrors, .incRecent]
  | _ => none

/-- The dial waits for the strategy lock to report its end. -/
def Phase.reports : Phase → Bool
  | .successStrategy | .errorStrategy _ => true
  | _ => false

/-- Where a dial stands after its metrics section. -/
def Phase.recorded : Phase → Phase
  | .successMetrics => .successStrategy
  | .errorMetrics e => .errorStrategy e
  | p => p

/-! ### The state -/

/-- A call of `dial_with_options` whose backend is not picked yet. -/
structure DialCall where
  addr : String
  timeout : Option Duration
  policy : Option RetryPolicy

/-- The task that has the metrics lock for writing, and how far it is. A list of assignments is
split into those that have run and those still to run. -/
inductive Writer
  /-- A call that waits for the strategy lock. -/
  | calling (x : DialCall)
  /-- A call that has both locks. -/
  | picking (x : DialCall)
  /-- A call that has both locks and has picked `row`. -/
  | counting (x : DialCall) (draw row : ℕ) (done todo : List Assign)
  /-- Dial number `k` in its metrics section. -/
  | dialing (k : ℕ) (done todo : List Assign)
  /-- Drop number `d` in its section. -/
  | dropping (d : ℕ) (done todo : List Assign)

/-- The writer has the strategy lock as well. -/
def Writer.hasStrategy : Writer → Bool
  | .picking _ | .counting .. => true
  | _ => false

/-- The call behind a writer. -/
def Writer.call? : Writer → Option DialCall
  | .calling x | .picking x | .counting x .. => some x
  | _ => none

/-- Who has the strategy lock, the writer apart. -/
inductive Holder
  /-- Dial number `k`, which reports its end. -/
  | dial (k : ℕ)
  /-- A call of `strategy_name`. -/
  | reader
  deriving DecidableEq

/-- The position of an item after another one, at position `j`, has gone. -/
def skip (j k : ℕ) : ℕ := if j < k then k - 1 else k

/-- The writer after the dials and the drops have taken other positions. -/
def Writer.relabel (dial drop : ℕ → ℕ) : Writer → Writer
  | .dialing k done todo => .dialing (dial k) done todo
  | .dropping d done todo => .dropping (drop d) done todo
  | x => x

/-- The holder after the dials have taken other positions. -/
def Holder.relabel (dial : ℕ → ℕ) : Holder → Holder
  | .dial k => .dial (dial k)
  | .reader => .reader

/-- The writer is dial `k`. -/
def Writer.isDial (k : ℕ) : Writer → Bool
  | .dialing j _ _ => j == k
  | _ => false

/-- The writer is drop `d`. -/
def Writer.isDrop (d : ℕ) : Writer → Bool
  | .dropping j _ _ => j == d
  | _ => false

/-- The balancer with its tasks, the calls that wait for the metrics lock, and the two locks. -/
structure Locked (σ : Type) where
  world : World σ
  calls : List DialCall
  writer : Option Writer
  readers : ℕ
  holder : Option Holder

/-- One task takes one step. -/
inductive LockEvent (σ : Type)
  /-- `dial_with_options` is called and checks the address and the pool. -/
  | call (addr : String) (timeout : Option Duration) (policy : Option RetryPolicy)
  /-- Waiting call `c` obtains the metrics lock. -/
  | callMetrics (c : ℕ)
  /-- The call with the metrics lock obtains the strategy lock. -/
  | callStrategy
  /-- The call with both locks picks. -/
  | pick (draw : ℕ)
  /-- Waiting call `c` is dropped. -/
  | cancelCall (c : ℕ)
  /-- The call that waits for the strategy lock is dropped. -/
  | cancelCalling
  /-- The current attempt of dial `k` ends. -/
  | attempted (k : ℕ) (outcome : Attempt) (elapsed : Duration) (draw : ℕ)
  /-- The back-off sleep of dial `k` ends. -/
  | woke (k : ℕ)
  /-- Dial `k` obtains the metrics lock. -/
  | dialMetrics (k : ℕ)
  /-- Dial `k` obtains the strategy lock. -/
  | dialStrategy (k : ℕ)
  /-- Dial `k` reports to the strategy, releases it and returns. -/
  | report (k : ℕ)
  /-- The future of dial `k` is dropped, outside the critical sections. -/
  | cancel (k : ℕ)
  /-- The drop of connection `g` loads and compares the generation. -/
  | dropCheck (g : ℕ)
  /-- Drop number `d` calls `try_write`. -/
  | tryWrite (d : ℕ)
  /-- The writer runs its next assignment. -/
  | assign
  /-- The writer has run its section and releases what it holds. -/
  | release
  /-- A call of `metrics` or `is_draining` obtains a read lock. -/
  | read
  /-- A read lock is released. -/
  | unread
  /-- A call of `strategy_name` obtains the strategy lock. -/
  | readName
  /-- The strategy lock of `strategy_name` is released. -/
  | unreadName
  /-- The owner runs a reconfiguration. -/
  | reconfigure (e : Event σ)

/-- The event is a reconfiguration. -/
def Event.reconfigures : Event σ → Bool
  | .addBackend _ | .addBackendWithId .. | .removeBackend _ | .removeBackendById _
  | .removeBackendByPtr _ | .replaceBackends .. | .drainBackend _ | .undrainBackend _
  | .setStrategy _ => true
  | _ => false

/-- The reconfiguration gets as far as the metrics lock. -/
def World.locksMetrics (w : World σ) : Event σ → Bool
  | .removeBackend index | .drainBackend index => index < w.lb.backends.length
  | .removeBackendById id => (w.lb.ids.findIdx? (· = some id)).isSome
  | .removeBackendByPtr ptr => (w.lb.backends.findIdx? (·.ptr = ptr)).isSome
  | .replaceBackends ptrs _ => !ptrs.isEmpty
  | .setStrategy _ => false
  | _ => true

namespace Locked

/-- Nobody has the metrics lock, for writing or reading. -/
def MetricsFree (s : Locked σ) : Prop := s.writer = none ∧ s.readers = 0

/-- Nobody has the strategy lock. -/
def StrategyFree (s : Locked σ) : Prop :=
  s.holder = none ∧ s.writer.any Writer.hasStrategy = false

instance (s : Locked σ) : Decidable s.MetricsFree :=
  decidable_of_iff (s.writer.isNone = true ∧ s.readers = 0) (by simp [MetricsFree])

instance (s : Locked σ) : Decidable s.StrategyFree :=
  inferInstanceAs (Decidable (_ ∧ _))

/-- A world whose tasks are all outside the locks. -/
def quiet (w : World σ) : Locked σ := ⟨w, [], none, 0, none⟩

/-- Run `f` on the item at a position. -/
def onItem {α : Type} (l : List α) (k : ℕ) (f : α → Except Fault (Locked σ)) :
    Except Fault (Locked σ) :=
  match l[k]? with
  | some a => f a
  | none => .error .disabled

/-- A step that is enabled under a condition. -/
def guarded (p : Prop) [Decidable p] (s : Locked σ) : Except Fault (Locked σ) :=
  if p then .ok s else .error .disabled

/-- Go on in another world, or end with its fault. -/
def within (r : Except Fault (World σ)) (f : World σ → Locked σ) : Except Fault (Locked σ) :=
  match r with
  | .ok w => .ok (f w)
  | .error x => .error x

/-- The next assignment of the writer. A picked row is indexed, the other sections look theirs
up with `get_mut`. -/
def assign (s : Locked σ) : Except Fault (Locked σ) :=
  match s.writer with
  | some (.counting x draw row done (a :: todo)) =>
    match Vec.modify s.world.lb.metrics row a.apply with
    | .ok metrics =>
      .ok { s with
        world := { s.world with lb := { s.world.lb with metrics } }
        writer := some (.counting x draw row (done ++ [a]) todo) }
    | .error p => .error (.panic p)
  | some (.dialing k done (a :: todo)) =>
    onItem s.world.dials k fun d =>
      .ok { s with
        world := s.world.onMetrics d.index a.apply
        writer := some (.dialing k (done ++ [a]) todo) }
  | some (.dropping j done (a :: todo)) =>
    onItem s.world.drops j fun p =>
      .ok { s with
        world := s.world.onMetrics p.guard.index a.apply
        writer := some (.dropping j (done ++ [a]) todo) }
  | _ => .error .disabled

/-- The end of the writer's section. A call goes on to its first attempt, which indexes the
backends. -/
def release (s : Locked σ) : Except Fault (Locked σ) :=
  match s.writer with
  | some (.counting x _ row _ []) =>
    match Vec.get s.world.lb.backends row with
    | .ok backend =>
      .ok { s with
        world := { s.world with
          dials := s.world.dials ++ [{
            owner := backend.tag, index := row, gen := s.world.lb.generation
            timeout := x.timeout.or s.world.lb.dialTimeout
            policy := x.policy.or s.world.lb.retryPolicy
            phase := .awaitDial 1 }]
          log := s.world.log ++ [.routed backend.tag] }
        writer := none }
    | .error p => .error (.panic p)
  | some (.dialing k _ []) =>
    onItem s.world.dials k fun d =>
      .ok { s with world := s.world.goto k d d.phase.recorded, writer := none }
  | some (.dropping j _ []) =>
    onItem s.world.drops j fun p =>
      let w := { s.world with drops := s.world.drops.eraseIdx j }
      .ok { s with
        world := { w with log := w.log ++ w.settleEntries p.guard p.owner }
        writer := none }
  | _ => .error .disabled

/-- `try_write`: the section of the drop guard begins, or its decrement is skipped. -/
def tryWrite (s : Locked σ) (d : ℕ) (p : Dropping) : Locked σ :=
  if s.MetricsFree then { s with writer := some (.dropping d [] Assign.dropGuard) }
  else
    { s with
      world := s.world.dropWrite d p false
      writer := s.writer.map (·.relabel id (skip d)) }

/-- A dial future is not dropped inside a critical section. -/
def Outside (s : Locked σ) (k : ℕ) : Prop :=
  s.writer.any (·.isDial k) = false ∧ s.holder ≠ some (.dial k)

instance (s : Locked σ) (k : ℕ) : Decidable (s.Outside k) :=
  inferInstanceAs (Decidable (_ ∧ _))

/-- The state after dial `k` has gone, the world apart. -/
def forget (s : Locked σ) (k : ℕ) (w : World σ) : Locked σ :=
  { s with
    world := w
    writer := s.writer.map (·.relabel (skip k) id)
    holder := s.holder.map (·.relabel (skip k)) }

/-- A reconfiguration has `&mut self`, and waits for the metrics lock if it takes it. -/
def Exclusive (s : Locked σ) (e : Event σ) : Prop :=
  e.reconfigures = true ∧ s.calls = [] ∧ s.writer.all (·.call?.isNone) = true ∧ s.readers = 0 ∧
    s.holder = none ∧ (s.world.locksMetrics e = true → s.writer = none)

instance (s : Locked σ) (e : Event σ) : Decidable (s.Exclusive e) :=
  decidable_of_iff (e.reconfigures = true ∧ s.calls.isEmpty = true ∧
    s.writer.all (·.call?.isNone) = true ∧ s.readers = 0 ∧ s.holder = none ∧
    (s.world.locksMetrics e = true → s.writer.isNone = true)) (by simp [Exclusive])

/-- One event. -/
def step [BalanceStrategy σ] (env : Env) (s : Locked σ) : LockEvent σ → Except Fault (Locked σ)
  | .call addr timeout policy =>
    match validateDialAddr addr with
    | .error _ => .ok s
    | .ok () =>
      if s.world.lb.backends.isEmpty then .ok s
      else .ok { s with calls := s.calls ++ [⟨addr, timeout, policy⟩] }
  | .callMetrics c =>
    onItem s.calls c fun x =>
      guarded s.MetricsFree
        { s with calls := s.calls.eraseIdx c, writer := some (.calling x) }
  | .callStrategy =>
    match s.writer with
    | some (.calling x) => guarded s.StrategyFree { s with writer := some (.picking x) }
    | _ => .error .disabled
  | .pick draw =>
    match s.writer with
    | some (.picking x) =>
      match BalanceStrategy.pick env draw s.world.lb.strategy ⟨x.addr, s.world.lb.metrics⟩ with
      | .ok (row, strategy) =>
        .ok { s with
          world := s.world.onStrategy strategy
          writer := some (.counting x draw row [] Assign.countDial) }
      | .error p => .error (.panic p)
    | _ => .error .disabled
  | .cancelCall c => onItem s.calls c fun _ => .ok { s with calls := s.calls.eraseIdx c }
  | .cancelCalling =>
    match s.writer with
    | some (.calling _) => .ok { s with writer := none }
    | _ => .error .disabled
  | .attempted k outcome elapsed draw =>
    within (World.onItem s.world.dials k fun d => s.world.attempted k d outcome elapsed draw)
      fun w => { s with world := w }
  | .woke k =>
    within (World.onItem s.world.dials k fun d => s.world.woke k d) fun w => { s with world := w }
  | .dialMetrics k =>
    onItem s.world.dials k fun d =>
      match d.phase.assigns with
      | some as => guarded s.MetricsFree { s with writer := some (.dialing k [] as) }
      | none => .error .disabled
  | .dialStrategy k =>
    onItem s.world.dials k fun d =>
      guarded (d.phase.reports = true ∧ s.StrategyFree) { s with holder := some (.dial k) }
  | .report k =>
    if s.holder = some (.dial k) then
      within (World.onItem s.world.dials k fun d => s.world.lockStrategy k d)
        fun w => { s.forget k w with holder := none }
    else .error .disabled
  | .cancel k =>
    onItem s.world.dials k fun d => guarded (s.Outside k) (s.forget k (s.world.cancel k d))
  | .dropCheck g =>
    onItem s.world.guards g fun h => .ok { s with world := s.world.dropCheck g h }
  | .tryWrite d =>
    onItem s.world.drops d fun p =>
      guarded (s.writer.any (·.isDrop d) = false) (s.tryWrite d p)
  | .assign => s.assign
  | .release => s.release
  | .read => guarded (s.writer = none) { s with readers := s.readers + 1 }
  | .unread => guarded (0 < s.readers) { s with readers := s.readers - 1 }
  | .readName => guarded s.StrategyFree { s with holder := some .reader }
  | .unreadName => guarded (s.holder = some .reader) { s with holder := none }
  | .reconfigure e =>
    if s.Exclusive e then within (s.world.step env e) fun w => { s with world := w }
    else .error .disabled

/-! ### Inversion of the combinators -/

/-- An event on an item finds the item. -/
theorem onItem_eq_ok {α : Type} {l : List α} {k : ℕ} {f : α → Except Fault (Locked σ)}
    {s' : Locked σ} : onItem l k f = .ok s' ↔ ∃ a, l[k]? = some a ∧ f a = .ok s' := by
  unfold onItem
  cases l[k]? <;> simp

theorem guarded_eq_ok {p : Prop} [Decidable p] {s s' : Locked σ} :
    guarded p s = .ok s' ↔ p ∧ s = s' := by
  unfold guarded
  by_cases hp : p <;> simp [hp]

theorem within_eq_ok {r : Except Fault (World σ)} {f : World σ → Locked σ} {s' : Locked σ} :
    within r f = .ok s' ↔ ∃ w, r = .ok w ∧ f w = s' := by
  unfold within
  cases r <;> simp

end Locked

end RotaLb
