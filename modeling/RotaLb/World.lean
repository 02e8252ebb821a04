import RotaLb.Balancer
import RotaLb.Pool
import RotaLb.StepSystem

/-!
# The Balancer Among Concurrent Tasks

One `LoadBalancer` shared by any number of tasks. A `World` holds the balancer, the dial
futures in progress with the await point each one stands at, the live connections, and the
drop guards that are inside `Drop::drop`; an `Event` lets one of them run to its next await
point. Between two events any other task may run, so the runs of `World.step` are the
interleavings of the crate's critical sections.

* A dial holds `&self` from its pick to its end, and reconfiguration takes `&mut self`:
  a reconfiguration event is enabled only while no dial is in progress.
* A connection holds only `Arc`s, so its drop is excluded by nothing. `drop` runs the two
  halves of `ActiveConnectionGuard::drop` at once; `dropCheck` and `dropWrite` run them
  apart.
* `cancel` drops a dial future at the await point it stands at.

Beside the program's state a `World` carries history that no operation reads: the tag of
the backend behind each dial and guard, the number of generation changes (`epoch`), the
next unused tag, and the log of `RotaLb.Pool`.
-/

namespace RotaLb

open Rust StepSystem

/-- The await point a dial future stands at, after the backend was picked. -/
inductive Phase
  /-- `Backend::dial`, attempt number `n`. -/
  | awaitDial (n : UInt32)
  /-- The back-off sleep after attempt `n`. -/
  | awaitSleep (n : UInt32)
  /-- The metrics lock of `handle_dial_success`. -/
  | successMetrics
  /-- The strategy lock of `handle_dial_success`. -/
  | successStrategy
  /-- The metrics lock of `handle_dial_error`. -/
  | errorMetrics (e : Error)
  /-- The strategy lock of `handle_dial_error`. -/
  | errorStrategy (e : Error)
  deriving DecidableEq

/-- The dial's failure is already recorded in the metrics. -/
def Phase.settled : Phase → Bool
  | .errorStrategy _ => true
  | _ => false

/-- A dial future in progress. -/
structure Dial where
  owner : ℕ
  index : ℕ
  gen : UInt64
  timeout : Option Duration
  policy : Option RetryPolicy
  phase : Phase

/-- The guard of a live `GuardedConnection`. -/
structure Held where
  guard : ActiveConnectionGuard
  owner : ℕ
  epoch : ℕ
  deriving DecidableEq

/-- A guard inside `drop`, past its generation check. `shifted` records that the slot at
its index is no longer the one the check was about. -/
structure Dropping where
  guard : ActiveConnectionGuard
  owner : ℕ
  shifted : Bool
  deriving DecidableEq

/-- A pending drop past a removal at `index`: the slots from there on have shifted. -/
def Dropping.shift (index : ℕ) (p : Dropping) : Dropping :=
  { p with shifted := p.shifted || decide (index ≤ p.guard.index) }

/-- The balancer, its tasks, and the history. -/
structure World (σ : Type) where
  lb : LoadBalancer σ
  dials : List Dial
  guards : List Held
  drops : List Dropping
  fresh : ℕ
  epoch : ℕ
  log : List Entry

/-- One task runs to its next await point, or the owner completes a reconfiguration. -/
inductive Event (σ : Type)
  /-- A new `dial_with_options` call runs to its first attempt. -/
  | start (addr : String) (timeout : Option Duration) (policy : Option RetryPolicy) (draw : ℕ)
  /-- The current attempt of dial `k` ends. -/
  | attempted (k : ℕ) (outcome : Attempt) (elapsed : Duration) (draw : ℕ)
  /-- The back-off sleep of dial `k` ends. -/
  | woke (k : ℕ)
  /-- Dial `k` obtains the metrics lock. -/
  | lockMetrics (k : ℕ)
  /-- Dial `k` obtains the strategy lock and returns. -/
  | lockStrategy (k : ℕ)
  /-- The future of dial `k` is dropped. -/
  | cancel (k : ℕ)
  /-- Connection `g` is dropped, or taken apart by `into_inner`, in one step. -/
  | drop (g : ℕ)
  /-- The drop of connection `g` loads and compares the generation. -/
  | dropCheck (g : ℕ)
  /-- Drop number `d` calls `try_write`, which succeeds if the lock is `free`. -/
  | dropWrite (d : ℕ) (free : Bool)
  | addBackend (ptr : ℕ)
  | addBackendWithId (id : String) (ptr : ℕ)
  | removeBackend (index : ℕ)
  | removeBackendById (id : String)
  | removeBackendByPtr (ptr : ℕ)
  | replaceBackends (ptrs : List ℕ) (strategy : Option σ)
  | drainBackend (index : ℕ)
  | undrainBackend (index : ℕ)
  | setStrategy (strategy : σ)

/-- Why an event does not lead to a next state. -/
inductive Fault
  | panic (p : Panic)
  | disabled
  deriving DecidableEq

/-- Give consecutive tags to backends entering together. -/
def tagFrom (fresh : ℕ) : List ℕ → List Backend
  | [] => []
  | ptr :: ptrs => ⟨fresh, ptr⟩ :: tagFrom (fresh + 1) ptrs

namespace World

variable {σ : Type}

/-- The tags of the backends, slot by slot. -/
def tags (w : World σ) : List ℕ := w.lb.backends.map Backend.tag

/-- The pool the log describes. -/
def pool (w : World σ) : Pool := Pool.replay w.log

/-- A world around a new balancer: its backends have entered without an id, with the given
seeds. -/
def init (lb : LoadBalancer σ) (seeds : List TunnelMetrics) : World σ where
  lb := lb
  dials := []
  guards := []
  drops := []
  fresh := lb.backends.length
  epoch := 0
  log := (lb.backends.zip seeds).map fun x => .entered x.1.tag none x.2

/-! ### Dials -/

/-- A dial begins: refused at once, or routed to a backend. -/
def start [BalanceStrategy σ] (env : Env) (w : World σ) (addr : String)
    (timeout : Option Duration) (policy : Option RetryPolicy) (draw : ℕ) :
    Except Fault (World σ) :=
  match w.lb.beginDial env draw addr with
  | .error p => .error (.panic p)
  | .ok (.refused _) => .ok w
  | .ok (.picked idx backend gen lb) =>
    .ok { w with
      lb
      dials := w.dials ++ [{
        owner := backend.tag, index := idx, gen
        timeout := timeout.or lb.dialTimeout
        policy := policy.or lb.retryPolicy
        phase := .awaitDial 1 }]
      log := w.log ++ [.routed backend.tag] }

/-- Dial `k` moves to another await point. -/
def goto (w : World σ) (k : ℕ) (d : Dial) (phase : Phase) : World σ :=
  { w with dials := w.dials.set k { d with phase } }

/-- The phase after an attempt: done, or another round if the policy gives a delay. -/
def afterAttempt (d : Dial) (n : UInt32) (outcome : Attempt) (elapsed : Duration) (draw : ℕ) :
    Option Phase :=
  (outcome.connResult d.timeout).map fun
    | .ok () => .successMetrics
    | .error e =>
      match retryDelay d.policy elapsed draw n e with
      | some _ => .awaitSleep n
      | none => .errorMetrics e

/-- The current attempt of a dial ends. -/
def attempted (w : World σ) (k : ℕ) (d : Dial) (outcome : Attempt) (elapsed : Duration)
    (draw : ℕ) : Except Fault (World σ) :=
  match d.phase with
  | .awaitDial n =>
    match afterAttempt d n outcome elapsed draw with
    | some phase => .ok (w.goto k d phase)
    | none => .error .disabled
  | _ => .error .disabled

/-- The back-off sleep ends; the next attempt indexes the backends again. -/
def woke (w : World σ) (k : ℕ) (d : Dial) : Except Fault (World σ) :=
  match d.phase with
  | .awaitSleep n =>
    match Vec.get w.lb.backends d.index with
    | .ok _ => .ok (w.goto k d (.awaitDial (n + 1)))
    | .error p => .error (.panic p)
  | _ => .error .disabled

/-- The metrics section of `handle_dial_success` or `handle_dial_error`. -/
def lockMetrics (w : World σ) (k : ℕ) (d : Dial) : Except Fault (World σ) :=
  match d.phase with
  | .successMetrics =>
    .ok ({ w with lb := w.lb.handleDialSuccess d.index }.goto k d .successStrategy)
  | .errorMetrics e =>
    .ok ({ w with lb := w.lb.handleDialError d.index }.goto k d (.errorStrategy e))
  | _ => .error .disabled

/-- The strategy section, and the return of the dial: a success makes the guard. -/
def lockStrategy [BalanceStrategy σ] (w : World σ) (k : ℕ) (d : Dial) :
    Except Fault (World σ) :=
  match d.phase with
  | .successStrategy =>
    match w.lb.reportSuccess d.index with
    | .ok lb => .ok { w with
        lb
        dials := w.dials.eraseIdx k
        guards := w.guards ++ [⟨⟨d.index, d.gen⟩, d.owner, w.epoch⟩] }
    | .error p => .error (.panic p)
  | .errorStrategy _ =>
    match w.lb.reportError d.index with
    | .ok lb => .ok { w with lb, dials := w.dials.eraseIdx k }
    | .error p => .error (.panic p)
  | _ => .error .disabled

/-- A dial future is dropped. Nothing undoes its count, unless its failure is already
recorded. -/
def cancel (w : World σ) (k : ℕ) (d : Dial) : World σ :=
  { w with
    dials := w.dials.eraseIdx k
    log := w.log ++ if d.phase.settled then [] else [.leaked d.owner .cancelled] }

/-! ### Drops -/

/-- What the second half of a drop records: the decrement, and its loss to the guard's own
backend if it reaches another one or none. -/
def settleEntries (w : World σ) (g : ActiveConnectionGuard) (owner : ℕ) : List Entry :=
  match w.tags[g.index]? with
  | some t =>
    if t = owner then [.decremented owner t]
    else [.decremented owner t, .leaked owner .misdirected]
  | none => [.leaked owner .missed]

/-- The second half of a guard's drop, with the lock obtained. -/
def settle (w : World σ) (g : ActiveConnectionGuard) (owner : ℕ) : World σ :=
  { w with
    lb := g.decrement w.lb
    log := w.log ++ w.settleEntries g owner }

/-- A whole drop in one step. -/
def drop (w : World σ) (g : ℕ) (h : Held) : World σ :=
  let w := { w with guards := w.guards.eraseIdx g }
  if h.guard.unchanged w.lb then w.settle h.guard h.owner
  else { w with log := w.log ++ [.leaked h.owner .stale] }

/-- The first half of a drop. -/
def dropCheck (w : World σ) (g : ℕ) (h : Held) : World σ :=
  let w := { w with guards := w.guards.eraseIdx g }
  if h.guard.unchanged w.lb then
    { w with drops := w.drops ++ [⟨h.guard, h.owner, h.epoch ≠ w.epoch⟩] }
  else { w with log := w.log ++ [.leaked h.owner .stale] }

/-- The second half of a drop. -/
def dropWrite (w : World σ) (d : ℕ) (p : Dropping) (free : Bool) : World σ :=
  let w := { w with drops := w.drops.eraseIdx d }
  if free then w.settle p.guard p.owner
  else { w with log := w.log ++ [.leaked p.owner .contended] }

/-! ### Reconfiguration -/

/-- A backend joins. -/
def added (w : World σ) (id : Option String) (done : Done σ ℕ) : World σ :=
  { w with
    lb := done.lb
    fresh := w.fresh + 1
    log := w.log ++ [.entered w.fresh id default] }

/-- A removal at `index` has run. -/
def removed (w : World σ) (index : ℕ) (result : Except Panic (Done σ Bool)) :
    Except Fault (World σ) :=
  match result with
  | .error p => .error (.panic p)
  | .ok done =>
    if done.value then
      .ok { w with
        lb := done.lb
        epoch := w.epoch + 1
        drops := w.drops.map (Dropping.shift index)
        log := w.log ++ done.shutdown.map fun b => .left b.tag }
    else
      .ok { w with lb := done.lb }

/-- All backends are replaced; an empty new pool is refused. -/
def replaced (w : World σ) (ptrs : List ℕ) (strategy : Option σ) : World σ :=
  match w.lb.replaceBackends (tagFrom w.fresh ptrs) strategy with
  | .error _ => w
  | .ok done => { w with
      lb := done.lb
      fresh := w.fresh + ptrs.length
      epoch := w.epoch + 1
      drops := w.drops.map (Dropping.shift 0)
      log := w.log ++ done.shutdown.map (fun b => .left b.tag)
        ++ done.lb.backends.map fun b => .entered b.tag none default }

/-- A drain mark is set or cleared on the backend at `index`. -/
def marked (w : World σ) (index : ℕ) (done : Done σ Bool) (entry : ℕ → Entry) : World σ :=
  { w with
    lb := done.lb
    log := if done.value then w.log ++ (w.tags[index]?.map entry).toList else w.log }

/-! ### The step function -/

/-- Run `f` on the element at a position. -/
def onItem {α : Type} (l : List α) (k : ℕ) (f : α → Except Fault (World σ)) :
    Except Fault (World σ) :=
  match l[k]? with
  | some a => f a
  | none => .error .disabled

/-- Run a reconfiguration if no dial is in progress. -/
def exclusive (w : World σ) (r : Except Fault (World σ)) : Except Fault (World σ) :=
  if w.dials.isEmpty then r else .error .disabled

/-- One event. -/
def step [BalanceStrategy σ] (env : Env) (w : World σ) : Event σ → Except Fault (World σ)
  | .start addr timeout policy draw => w.start env addr timeout policy draw
  | .attempted k outcome elapsed draw =>
    onItem w.dials k fun d => w.attempted k d outcome elapsed draw
  | .woke k => onItem w.dials k fun d => w.woke k d
  | .lockMetrics k => onItem w.dials k fun d => w.lockMetrics k d
  | .lockStrategy k => onItem w.dials k fun d => w.lockStrategy k d
  | .cancel k => onItem w.dials k fun d => .ok (w.cancel k d)
  | .drop g => onItem w.guards g fun h => .ok (w.drop g h)
  | .dropCheck g => onItem w.guards g fun h => .ok (w.dropCheck g h)
  | .dropWrite d free => onItem w.drops d fun p => .ok (w.dropWrite d p free)
  | .addBackend ptr =>
    w.exclusive (.ok (w.added none (w.lb.addBackend ⟨w.fresh, ptr⟩)))
  | .addBackendWithId id ptr =>
    w.exclusive (.ok (w.added (some id) (w.lb.addBackendWithId id ⟨w.fresh, ptr⟩)))
  | .removeBackend index => w.exclusive (w.removed index (w.lb.removeBackend index))
  | .removeBackendById id =>
    w.exclusive (w.removed ((w.lb.ids.findIdx? (· = some id)).getD 0) (w.lb.removeBackendById id))
  | .removeBackendByPtr ptr =>
    w.exclusive (w.removed ((w.lb.backends.findIdx? (·.ptr = ptr)).getD 0)
      (w.lb.removeBackendByPtr ptr))
  | .replaceBackends ptrs strategy => w.exclusive (.ok (w.replaced ptrs strategy))
  | .drainBackend index =>
    w.exclusive (.ok (w.marked index (w.lb.drainBackend index) .drained))
  | .undrainBackend index =>
    w.exclusive (.ok (w.marked index (w.lb.undrainBackend index) .undrained))
  | .setStrategy strategy => w.exclusive (.ok { w with lb := w.lb.setStrategy strategy })

/-! ### After a panic

`step` says that an event panics and stops there. The task of the event is lost then, but the
balancer is not: the locks are tokio's, which a panic releases and does not poison. -/

/-- What a dial leaves that panics once its row is picked: the strategy has moved on, and the row
is counted if there is one. No backend was reached, so the history records nothing. -/
def abandoned (w : World σ) (idx : ℕ) (strategy : σ) : World σ :=
  { w with lb := { w.lb with metrics := w.lb.metrics.modify idx LoadBalancer.countDial, strategy } }

/-- A dial has panicked. What a strategy leaves of itself that panics in `pick` is not known. -/
def afterPanic [BalanceStrategy σ] (env : Env) (w : World σ) (addr : String) (draw : ℕ) :
    Except Fault (World σ) :=
  match BalanceStrategy.pick env draw w.lb.strategy ⟨addr, w.lb.metrics⟩ with
  | .ok (idx, strategy) => .ok (w.abandoned idx strategy)
  | .error p => .error (.panic p)

/-- One event, which the balancer outlives if it is a dial that panics where it indexes the metrics
or the backends. The future of such a dial is dropped, a retrying one as by `cancel`. -/
def proceed [BalanceStrategy σ] (env : Env) (w : World σ) (e : Event σ) : Except Fault (World σ) :=
  match w.step env e with
  | .error (.panic p) =>
    match e with
    | .start addr _ _ draw => w.afterPanic env addr draw
    | .woke k => onItem w.dials k fun d => .ok (w.cancel k d)
    | _ => .error (.panic p)
  | result => result

end World

/-! ### Initial worlds -/

/-- The balancers the constructors and the builder return, with the metrics each backend is
seeded with. -/
inductive Constructs {σ : Type} : LoadBalancer σ → List TunnelMetrics → Prop
  | new {bs : List Backend} {s : σ} {lb : LoadBalancer σ} :
      LoadBalancer.new bs s = .ok lb → Constructs lb (bs.map fun _ => default)
  | newWithMetrics {bs : List Backend} {ms : List TunnelMetrics} {s : σ}
      {timeout : Option Duration} {policy : Option RetryPolicy} {lb : LoadBalancer σ} :
      LoadBalancer.newWithMetrics bs ms s timeout policy = .ok lb → Constructs lb ms
  | fromFactories {fs : List (Except Error BackendOutput)} {bs : List Backend}
      {ms : List TunnelMetrics} {s : σ} {lb : LoadBalancer σ} :
      LoadBalancer.createAll fs = .ok (bs, ms) →
      LoadBalancer.fromFactories fs s = .ok lb → Constructs lb ms
  | buildBackends {b : LoadBalancerBuilder σ} {bs : List Backend} {lb : LoadBalancer σ} :
      b.backends = some bs → b.build = .ok lb →
      Constructs lb (b.initialMetrics.getD (List.replicate bs.length default))
  | buildFactories {b : LoadBalancerBuilder σ} {fs : List (Except Error BackendOutput)}
      {bs : List Backend} {ms : List TunnelMetrics} {lb : LoadBalancer σ} :
      b.factories = some fs → LoadBalancer.createAll fs = .ok (bs, ms) → b.build = .ok lb →
      Constructs lb (b.initialMetrics.getD ms)

/-- A world around a newly constructed balancer, its backends tagged in order. -/
def World.Initial {σ : Type} (w : World σ) : Prop :=
  ∃ lb seeds, Constructs lb seeds ∧
    lb.backends.map Backend.tag = List.range lb.backends.length ∧ w = World.init lb seeds

/-- A balancer built by `LoadBalancer::new_with_metrics`, one backend for each seed. -/
def World.ofSeeds {σ : Type} (seeds : List TunnelMetrics) (strategy : σ) : World σ :=
  init
    { backends := (List.range seeds.length).map fun i => ⟨i, i⟩
      ids := List.replicate seeds.length none
      metrics := seeds
      strategy
      generation := 0
      dialTimeout := none
      retryPolicy := none }
    seeds

/-- A balancer over `n` backends without metrics. -/
def World.ofSize {σ : Type} (n : ℕ) (strategy : σ) : World σ :=
  ofSeeds (List.replicate n default) strategy

/-- Such a world is an initial one. -/
theorem World.initial_ofSeeds {σ : Type} {seeds : List TunnelMetrics} (hne : seeds ≠ [])
    (strategy : σ) : (ofSeeds seeds strategy).Initial := by
  refine ⟨_, _, ?_, ?_, rfl⟩
  · have hbs : ((List.range seeds.length).map fun i => (⟨i, i⟩ : Backend)).isEmpty = false := by
      rw [List.isEmpty_eq_false_iff, ← List.length_pos_iff]
      simpa [List.length_pos_iff] using hne
    have hnew : LoadBalancer.newWithMetrics ((List.range seeds.length).map fun i => ⟨i, i⟩) seeds
        strategy none none = .ok (ofSeeds seeds strategy).lb := by
      simp [LoadBalancer.newWithMetrics, hbs, ofSeeds, init]
    exact .newWithMetrics hnew
  · simp [Function.comp_def]

/-- Such a world is an initial one. -/
theorem World.initial_ofSize {σ : Type} {n : ℕ} (hn : 0 < n) (strategy : σ) :
    (ofSize n strategy).Initial :=
  initial_ofSeeds (by simpa using Nat.ne_of_gt hn) strategy

/-- The events of a dial that connects at its first attempt, `k` others being in progress. -/
def Event.connecting {σ : Type} (k : ℕ) : List (Event σ) :=
  [.start "a:1" none none 0, .attempted k .connected (Duration.fromMillis 0) 0, .lockMetrics k,
    .lockStrategy k]

/-- The events of a dial that fails at its first attempt, `k` others being in progress. -/
def Event.failing {σ : Type} (k : ℕ) : List (Event σ) :=
  [.start "a:1" none none 0, .attempted k (.failed .noBackends) (Duration.fromMillis 0) 0,
    .lockMetrics k, .lockStrategy k]

end RotaLb
