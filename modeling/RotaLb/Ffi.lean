import RotaLb.StepSystem
import RotaLb.Strategy

/-!
# The C Interface

The calls of the C interface on one handle. The caller owns the pool and passes the metrics of
its backends to every `rota_lb_select`; the handle holds a strategy and a scratch copy of the
metrics, each behind a mutex.

A panic does not cross the boundary: `catch_panic` turns it into the call's error value. It
leaves a trace all the same, for a mutex whose guard is dropped by a panic is poisoned and every
later `lock` of it fails. No call repairs a poisoned mutex, so what it held is forgotten here.

Memory is modelled as far as the calls read and write it. The handle's memory is an
`FfiLoadBalancer`; the argument `null` of a call says that the caller passes a null pointer in
its place. A C string is text or not UTF-8, and the caller's metrics are an array from which as
many entries are read as the call says.

## Main results

* `FfiStrategy.cachedNames_getElem?`, `FfiStrategy.name_build`: the tables of names agree.
* `FfiLoadBalancer.step_effect`: **every call on sound mutexes is one of the listed effects.**
-/

namespace RotaLb

open Rust

/-! ### Data -/

/-- `FfiStrategy`. -/
inductive FfiStrategy
  | roundRobin
  | random
  | lowestRtt
  | leastConnections
  | hashByAddr
  | weightedRoundRobin
  | failover
  | healthWeighted
  | sticky
  deriving DecidableEq

namespace FfiStrategy

/-- `FfiStrategy::from_i32`. -/
def fromI32 (n : Int32) : Option FfiStrategy :=
  match n.toInt with
  | 0 => some roundRobin
  | 1 => some random
  | 2 => some lowestRtt
  | 3 => some leastConnections
  | 4 => some hashByAddr
  | 5 => some weightedRoundRobin
  | 6 => some failover
  | 7 => some healthWeighted
  | 8 => some sticky
  | _ => none

/-- The discriminant, `kind as usize`. -/
def discriminant : FfiStrategy → Nat
  | roundRobin => 0
  | random => 1
  | lowestRtt => 2
  | leastConnections => 3
  | hashByAddr => 4
  | weightedRoundRobin => 5
  | failover => 6
  | healthWeighted => 7
  | sticky => 8

/-- `FfiStrategy::name`. -/
def name : FfiStrategy → String
  | roundRobin => "round_robin"
  | random => "random"
  | lowestRtt => "lowest_rtt"
  | leastConnections => "least_connections"
  | hashByAddr => "hash_by_addr"
  | weightedRoundRobin => "weighted_round_robin"
  | failover => "failover"
  | healthWeighted => "health_weighted"
  | sticky => "sticky"

/-- `FfiStrategy::build`. -/
def build (kind : FfiStrategy) (backendCount : Nat) : Builtin :=
  match kind with
  | roundRobin => .roundRobin .new
  | random => .random
  | lowestRtt => .lowestRtt
  | leastConnections => .leastConnections
  | hashByAddr => .hashByAddr
  | weightedRoundRobin => .weightedRoundRobin .new
  | failover => .failover (.withBackendCount backendCount)
  | healthWeighted => .healthWeighted
  | sticky => .sticky .new

/-- Every strategy is built by its constructor. -/
theorem build_constructed (kind : FfiStrategy) (backendCount : Nat) :
    Builtin.Constructed (kind.build backendCount) := by
  cases kind <;> constructor

/-- The C names are the names the strategies have in logs. -/
theorem name_build (kind : FfiStrategy) (backendCount : Nat) :
    (kind.build backendCount).name = kind.name := by
  cases kind <;> rfl

/-- The names that `rota_lb_strategy_name` caches, one for each valid kind. -/
def cachedNames : List String :=
  ((List.range (sticky.discriminant + 1)).filterMap fun i => fromI32 (Int32.ofNat i)).map name

/-- The cache is indexed by the discriminant. -/
theorem cachedNames_getElem? (kind : FfiStrategy) :
    cachedNames[kind.discriminant]? = some kind.name := by
  cases kind <;> decide

end FfiStrategy

/-- `FfiMetric`. -/
structure FfiMetric where
  rttUs : UInt64 := 0
  activeConnections : UInt32 := 0
  recentErrors : UInt32 := 0
  totalDials : UInt64 := 0
  totalErrors : UInt64 := 0
  deriving DecidableEq

/-- The entry `rota_lb_metrics` writes where it knows nothing. -/
instance : Inhabited FfiMetric := ⟨{}⟩

/-- `ffi_to_tunnel`: an RTT of 0 stands for an unknown one. -/
def ffiToTunnel (m : FfiMetric) : TunnelMetrics where
  rtt := if m.rttUs = 0 then none else some (.fromMicros m.rttUs)
  activeConnections := m.activeConnections
  recentErrors := m.recentErrors
  totalDials := m.totalDials
  totalErrors := m.totalErrors

/-- The entry `rota_lb_metrics` writes for known metrics. -/
def tunnelToFfi (m : TunnelMetrics) : FfiMetric where
  rttUs := match m.rtt with
    | none => 0
    | some d => UInt64.ofNat ((tryFrom 64 d.asMicros).getD u64Max)
  activeConnections := m.activeConnections
  recentErrors := m.recentErrors
  totalDials := m.totalDials
  totalErrors := m.totalErrors

/-- `std::sync::Mutex`, between two calls. -/
inductive Mutex (α : Type)
  | sound (value : α)
  | poisoned
  deriving DecidableEq

/-- `FfiLoadBalancer`. -/
structure FfiLoadBalancer where
  strategy : Mutex Builtin
  backendCount : Nat
  strategyKind : FfiStrategy
  scratch : Mutex (List TunnelMetrics)

/-- A C string, as `CStr::to_str` sees it. -/
inductive CStr
  | utf8 (text : String)
  | malformed

/-! ### The calls -/

/-- `catch_panic!`: the value of a body that returned, the default of one that panicked, and
what the body has done to the handle either way. -/
def catchPanic {α : Type} (body : Except Panic α × FfiLoadBalancer) (default : α) :
    α × FfiLoadBalancer :=
  match body with
  | (.ok v, h) => (v, h)
  | (.error _, h) => (default, h)

/-- `rota_lb_create`. -/
def rotaLbCreate (n : UInt32) (strategyKind : Int32) : Option FfiLoadBalancer :=
  if n = 0 then none
  else
    match FfiStrategy.fromI32 strategyKind with
    | none => none
    | some kind => some {
        strategy := .sound (kind.build n.toNat)
        backendCount := n.toNat
        strategyKind := kind
        scratch := .sound [] }

namespace FfiLoadBalancer

/-- `select_impl`. While the strategy picks, both guards are held. -/
def selectImpl (p : Profile) (env : Env) (draw : Nat) (h : FfiLoadBalancer) (dialAddr : CStr)
    (metrics : Nat → FfiMetric) (n : UInt32) : Except Panic UInt32 × FfiLoadBalancer :=
  match dialAddr with
  | .malformed => (.ok u32Max, h)
  | .utf8 addr =>
    let count := n.toNat
    if count = 0 ∨ count ≠ h.backendCount then (.ok u32Max, h)
    else
      match h.scratch with
      | .poisoned => (.ok u32Max, h)
      | .sound _ =>
        let scratch := ((List.range count).map metrics).map ffiToTunnel
        match h.strategy with
        | .poisoned => (.ok u32Max, { h with scratch := .sound scratch })
        | .sound s =>
          match s.pick p env draw ⟨addr, scratch⟩ with
          | .ok (i, s) =>
            (.ok (UInt32.ofNat ((tryFrom 32 i).getD u32Max.toNat)),
              { h with scratch := .sound scratch, strategy := .sound s })
          | .error e => (.error e, { h with scratch := .poisoned, strategy := .poisoned })

/-- `rota_lb_select`. -/
def rotaLbSelect (p : Profile) (env : Env) (draw : Nat) (h : FfiLoadBalancer) (null : Bool)
    (dialAddr : Option CStr) (metrics : Option (Nat → FfiMetric)) (n : UInt32) :
    UInt32 × FfiLoadBalancer :=
  match null, dialAddr, metrics with
  | false, some dialAddr, some metrics =>
    catchPanic (h.selectImpl p env draw dialAddr metrics n) u32Max
  | _, _, _ => (u32Max, h)

/-- A report to the strategy under its lock. -/
def report (h : FfiLoadBalancer) (tell : Builtin → Except Panic Builtin) :
    Except Panic Unit × FfiLoadBalancer :=
  match h.strategy with
  | .poisoned => (.ok (), h)
  | .sound s =>
    match tell s with
    | .ok s => (.ok (), { h with strategy := .sound s })
    | .error e => (.error e, { h with strategy := .poisoned })

/-- `rota_lb_report_error`. -/
def rotaLbReportError (p : Profile) (h : FfiLoadBalancer) (null : Bool) (idx : UInt32) :
    Unit × FfiLoadBalancer :=
  if null then ((), h)
  else catchPanic (h.report fun s => s.reportError p idx.toNat) ()

/-- `rota_lb_report_success`. -/
def rotaLbReportSuccess (h : FfiLoadBalancer) (null : Bool) (idx : UInt32) :
    Unit × FfiLoadBalancer :=
  if null then ((), h)
  else catchPanic (h.report fun s => BalanceStrategy.reportSuccess s idx.toNat) ()

/-- `rota_lb_strategy_name`; the index into the cache cannot panic. -/
def rotaLbStrategyName (h : FfiLoadBalancer) (null : Bool) : String :=
  if null then FfiStrategy.cachedNames.getD 0 ""
  else FfiStrategy.cachedNames.getD h.strategyKind.discriminant ""

/-- The name is the one of the handle's kind. -/
theorem rotaLbStrategyName_eq (h : FfiLoadBalancer) :
    h.rotaLbStrategyName false = h.strategyKind.name := by
  have hname : FfiStrategy.cachedNames.getD h.strategyKind.discriminant "" =
      h.strategyKind.name := by
    rw [List.getD_eq_getElem?_getD, FfiStrategy.cachedNames_getElem?, Option.getD_some]
  exact hname

/-- `rota_lb_metrics`: the status, and what is written to the caller's buffer. -/
def rotaLbMetrics (h : FfiLoadBalancer) (null outNull : Bool) : Int32 × Option (List FfiMetric) :=
  if null || outNull then (-1, none)
  else
    let snapshot := match h.scratch with
      | .poisoned => []
      | .sound metrics => metrics
    (0, some ((List.range h.backendCount).map fun i => snapshot[i]?.elim default tunnelToFfi))

/-- `rota_lb_set_strategy`. -/
def rotaLbSetStrategy (h : FfiLoadBalancer) (null : Bool) (strategyKind : Int32) :
    Int32 × FfiLoadBalancer :=
  if null then (-1, h)
  else
    match FfiStrategy.fromI32 strategyKind, h.strategy with
    | none, _ => (-1, h)
    | some _, .poisoned => (-1, h)
    | some kind, .sound _ =>
      (0, { h with strategy := .sound (kind.build h.backendCount), strategyKind := kind })

/-- `rota_lb_reset`. -/
def rotaLbReset (h : FfiLoadBalancer) (null : Bool) : Int32 × FfiLoadBalancer :=
  if null then (-1, h)
  else
    match h.strategy with
    | .poisoned => (-1, h)
    | .sound _ => (0, { h with strategy := .sound (h.strategyKind.build h.backendCount) })

end FfiLoadBalancer

/-! ### Histories -/

/-- A call on the handle. `draw` numbers the draw of a random strategy. -/
inductive FfiCall
  | select (null : Bool) (dialAddr : Option CStr) (metrics : Option (Nat → FfiMetric)) (n : UInt32)
      (draw : Nat)
  | reportError (null : Bool) (idx : UInt32)
  | reportSuccess (null : Bool) (idx : UInt32)
  | setStrategy (null : Bool) (strategyKind : Int32)
  | reset (null : Bool)
  | metrics (null outNull : Bool)
  | strategyName (null : Bool)

/-- The handle after a call. No call fails: `catch_panic` lets none. -/
def FfiCall.step (p : Profile) (env : Env) (h : FfiLoadBalancer) :
    FfiCall → Except Empty FfiLoadBalancer
  | .select null dialAddr rows n draw => .ok (h.rotaLbSelect p env draw null dialAddr rows n).2
  | .reportError null idx => .ok (h.rotaLbReportError p null idx).2
  | .reportSuccess null idx => .ok (h.rotaLbReportSuccess null idx).2
  | .setStrategy null strategyKind => .ok (h.rotaLbSetStrategy null strategyKind).2
  | .reset null => .ok (h.rotaLbReset null).2
  | .metrics _ _ | .strategyName _ => .ok h

/-! ### What a call does -/

/-- The address, the metrics and the draw of a `rota_lb_select` that passes validation on a
handle for `n` backends: no null argument, a UTF-8 address, and one row for each backend. -/
def FfiCall.accepted (n : Nat) : FfiCall → Option (String × List FfiMetric × Nat)
  | .select false (some (.utf8 addr)) (some rows) m draw =>
    if m.toNat = n then some (addr, (List.range n).map rows, draw) else none
  | _ => none

/-- An accepted call is a `rota_lb_select` with these arguments. -/
theorem FfiCall.eq_of_accepted {c : FfiCall} {n draw : Nat} {addr : String}
    {metrics : List FfiMetric} (hc : c.accepted n = some (addr, metrics, draw)) :
    ∃ rows m, c = .select false (some (.utf8 addr)) (some rows) m draw ∧ m.toNat = n ∧
      metrics = (List.range n).map rows := by
  unfold accepted at hc
  split at hc
  · split at hc
    · rename_i rows m _ hm
      cases hc
      exact ⟨rows, m, rfl, hm, rfl⟩
    · cases hc
  · cases hc

/-- It passes one row for each backend. -/
theorem FfiCall.length_of_accepted {c : FfiCall} {n draw : Nat} {addr : String}
    {metrics : List FfiMetric} (hc : c.accepted n = some (addr, metrics, draw)) :
    metrics.length = n := by
  obtain ⟨rows, m, -, -, rfl⟩ := eq_of_accepted hc
  rw [List.length_map, List.length_range]

namespace FfiLoadBalancer

variable {p : Profile} {env : Env} {h : FfiLoadBalancer} {s : Builtin}

/-- The state after a pick that returned. -/
def picked (h : FfiLoadBalancer) (rows : List FfiMetric) (s : Builtin) : FfiLoadBalancer :=
  { h with scratch := .sound (rows.map ffiToTunnel), strategy := .sound s }

/-- The state after a pick that panicked. -/
def disabled (h : FfiLoadBalancer) : FfiLoadBalancer :=
  { h with scratch := .poisoned, strategy := .poisoned }

/-- A call that does not pass validation is answered without a look at the handle. -/
theorem rotaLbSelect_of_rejected {null : Bool} {dialAddr : Option CStr}
    {rows : Option (Nat → FfiMetric)} {n : UInt32} {draw : Nat}
    (hc : (FfiCall.select null dialAddr rows n draw).accepted h.backendCount = none) :
    h.rotaLbSelect p env draw null dialAddr rows n = (u32Max, h) := by
  unfold rotaLbSelect
  split
  next addr rows =>
    cases addr with
    | malformed => rfl
    | utf8 text =>
      have hn : n.toNat ≠ h.backendCount := by
        intro hn
        simp [FfiCall.accepted, hn] at hc
      simp [selectImpl, hn, catchPanic]
  next => rfl

/-- A call that passes validation asks the strategy, on sound mutexes. -/
theorem rotaLbSelect_of_accepted {null : Bool} {dialAddr : Option CStr}
    {rows : Option (Nat → FfiMetric)} {n : UInt32} {draw : Nat} {addr : String}
    {metrics : List FfiMetric} {k : Nat} {v : List TunnelMetrics} (hn : 0 < h.backendCount)
    (hs : h.strategy = .sound s) (hv : h.scratch = .sound v)
    (hc : (FfiCall.select null dialAddr rows n draw).accepted h.backendCount =
      some (addr, metrics, k)) :
    h.rotaLbSelect p env draw null dialAddr rows n =
      match s.pick p env k ⟨addr, metrics.map ffiToTunnel⟩ with
      | .ok (i, s') => (UInt32.ofNat ((tryFrom 32 i).getD u32Max.toNat), h.picked metrics s')
      | .error _ => (u32Max, h.disabled) := by
  obtain ⟨rows', m, hcall, hm, rfl⟩ := FfiCall.eq_of_accepted hc
  cases hcall
  have hcount : ¬ (h.backendCount = 0 ∨ h.backendCount ≠ h.backendCount) := by omega
  simp only [rotaLbSelect, selectImpl, hm, if_neg hcount, hv, hs, catchPanic]
  cases s.pick p env draw ⟨addr, ((List.range h.backendCount).map rows').map ffiToTunnel⟩ with
  | ok r => rfl
  | error e => rfl

/-- Every way in which a call changes a handle that holds the strategy `s` and whose mutexes are
sound. -/
inductive Effect (p : Profile) (env : Env) (h : FfiLoadBalancer) (s : Builtin) :
    FfiCall → FfiLoadBalancer → Prop
  | selected {c : FfiCall} {addr : String} {metrics : List FfiMetric} {draw i : Nat} {s' : Builtin}
      (hc : c.accepted h.backendCount = some (addr, metrics, draw))
      (hpick : s.pick p env draw ⟨addr, metrics.map ffiToTunnel⟩ = .ok (i, s')) :
      Effect p env h s c (h.picked metrics s')
  | disabled {c : FfiCall} {addr : String} {metrics : List FfiMetric} {draw : Nat} {e : Panic}
      (hc : c.accepted h.backendCount = some (addr, metrics, draw))
      (hpick : s.pick p env draw ⟨addr, metrics.map ffiToTunnel⟩ = .error e) :
      Effect p env h s c h.disabled
  | told {idx : UInt32} {s' : Builtin} (hs' : s.reportError p idx.toNat = .ok s') :
      Effect p env h s (.reportError false idx) { h with strategy := .sound s' }
  | silenced {idx : UInt32} {e : Panic} (hs' : s.reportError p idx.toNat = .error e) :
      Effect p env h s (.reportError false idx) { h with strategy := .poisoned }
  | rebuilt {c : FfiCall} {kind : FfiStrategy} (hc : c.accepted h.backendCount = none) :
      Effect p env h s c
        { h with strategy := .sound (kind.build h.backendCount), strategyKind := kind }
  | idle {c : FfiCall} (hc : c.accepted h.backendCount = none) : Effect p env h s c h

/-- **Every call on sound mutexes is one of the listed effects.** -/
theorem step_effect {c : FfiCall} {h' : FfiLoadBalancer} {v : List TunnelMetrics}
    (hn : 0 < h.backendCount) (hs : h.strategy = .sound s) (hv : h.scratch = .sound v)
    (hstep : c.step p env h = .ok h') : Effect p env h s c h' := by
  have hsame : { h with strategy := .sound s } = h := by rw [← hs]
  cases c with
  | select null dialAddr rows n draw =>
    cases hstep
    cases hc : (FfiCall.select null dialAddr rows n draw).accepted h.backendCount with
    | none =>
      rw [rotaLbSelect_of_rejected hc]
      exact .idle hc
    | some args =>
      obtain ⟨addr, metrics, k⟩ := args
      rw [rotaLbSelect_of_accepted hn hs hv hc]
      cases hpick : s.pick p env k ⟨addr, metrics.map ffiToTunnel⟩ with
      | ok r => exact .selected hc hpick
      | error e => exact .disabled hc hpick
  | reportError null idx =>
    cases hstep
    cases null with
    | true => exact .idle rfl
    | false =>
      simp only [rotaLbReportError, report, hs, Bool.false_eq_true, if_false]
      cases hs' : s.reportError p idx.toNat with
      | ok s' => exact .told hs'
      | error e => exact .silenced hs'
  | reportSuccess null idx =>
    cases hstep
    cases null with
    | true => exact .idle rfl
    | false =>
      have hkeep : (h.rotaLbReportSuccess false idx).2 = h := by
        simp only [rotaLbReportSuccess, report, hs, Bool.false_eq_true, if_false]
        exact hsame
      rw [hkeep]
      exact .idle rfl
  | setStrategy null strategyKind =>
    cases hstep
    cases null with
    | true => exact .idle rfl
    | false =>
      simp only [rotaLbSetStrategy, hs, Bool.false_eq_true, if_false]
      cases FfiStrategy.fromI32 strategyKind with
      | none => exact .idle rfl
      | some kind => exact .rebuilt rfl
  | reset null =>
    cases hstep
    cases null with
    | true => exact .idle rfl
    | false =>
      simp only [rotaLbReset, hs, Bool.false_eq_true, if_false]
      exact .rebuilt rfl
  | metrics null outNull =>
    cases hstep
    exact .idle rfl
  | strategyName null =>
    cases hstep
    exact .idle rfl

/-- A new handle: its mutexes are sound, the strategy is new and the scratch copy is empty. -/
theorem create_eq_some {n : UInt32} {kind : Int32} (hcreate : rotaLbCreate n kind = some h) :
    0 < n ∧ h.backendCount = n.toNat ∧ h.scratch = .sound [] ∧
      ∃ k : FfiStrategy, h.strategy = .sound (k.build n.toNat) := by
  rw [rotaLbCreate] at hcreate
  split at hcreate
  · cases hcreate
  next hn =>
    split at hcreate
    · cases hcreate
    next k _ =>
      cases hcreate
      have hpos : 0 < n := UInt32.pos_iff_ne_zero.mpr hn
      exact ⟨hpos, rfl, rfl, k, rfl⟩

/-- A handle is created for every positive count and every valid kind. -/
theorem exists_create {n : UInt32} {kind : Int32} (hn : 0 < n)
    (hkind : (FfiStrategy.fromI32 kind).isSome) : ∃ h, rotaLbCreate n kind = some h := by
  obtain ⟨k, hk⟩ := Option.isSome_iff_exists.mp hkind
  simp [rotaLbCreate, hk, UInt32.pos_iff_ne_zero.mp hn]

end FfiLoadBalancer

end RotaLb
