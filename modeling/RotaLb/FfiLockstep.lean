import RotaLb.FfiReadback
import RotaLb.FfiSafety
import RotaLb.Load
import RotaLb.Routing

/-!
# A C Program in Lockstep with the Balancer

The C interface offers the strategies without the balancer: the program keeps the metrics, passes
them to `rota_lb_select` and reports how its connections end. Here the program is one that keeps
the metrics the balancer keeps. Whatever happens to a balancer whose pool stays the same, the
program that accompanies each dial by a select and each end of a dial by a report is given the row
that the balancer routes the dial to, as long as the round-trip times can be said in whole
microseconds.

Each call of `Random::pick` draws anew, so a select and the dial it goes with draw apart: an event
of the balancer comes with the draw of its select, and for `Random` the rows agree if the two draws
do. The other strategies draw nothing. The C library and the balancer are release builds here.

## Main results

* `ffiToTunnel_tunnelToFfi`: nothing is lost on the way to C and back.
* `Builtin.pick_eq_of_draw`: only `Random` depends on the draw.
* `World.lockstep_step`: what one event of the balancer and the calls that go with it do.
* `World.balancer_in_lockstep`: **the handle gives the rows of the balancer**, over every run.
-/

namespace RotaLb

open Rust StepSystem

/-- The round-trip time can be passed through the C interface: it is unknown, or a positive number
of whole microseconds. -/
def TunnelMetrics.Expressible (m : TunnelMetrics) : Prop :=
  m.rtt = none ∨ ∃ us : UInt64, us ≠ 0 ∧ m.rtt = some (.fromMicros us)

/-- **Nothing is lost on the way to C and back.** -/
theorem ffiToTunnel_tunnelToFfi {m : TunnelMetrics} (h : m.Expressible) :
    ffiToTunnel (tunnelToFfi m) = m := by
  obtain ⟨x, rfl⟩ : ∃ x, m = ffiToTunnel x := by
    obtain ⟨rtt, active, errors, dials, allErrors⟩ := m
    rcases h with hrtt | ⟨us, hus, hrtt⟩
    · obtain rfl : rtt = none := hrtt
      exact ⟨⟨0, active, errors, dials, allErrors⟩, rfl⟩
    · obtain rfl : rtt = some (.fromMicros us) := hrtt
      exact ⟨⟨us, active, errors, dials, allErrors⟩, by simp [ffiToTunnel, hus]⟩
  rw [tunnelToFfi_ffiToTunnel]

namespace Builtin

/-- **Only `Random` depends on the draw.** -/
theorem pick_eq_of_draw {env : Env} {draw draw' : ℕ} {s : Builtin} {view : PoolView} (p : Profile)
    (h : s = .random → env.genRange draw' view.len = env.genRange draw view.len) :
    s.pick p env draw' view = s.pick p env draw view := by
  cases s with
  | random => simp only [pick, Random.pick, h rfl]
  | _ => rfl

/-- A pick does not make a strategy `Random`. -/
theorem eq_random_of_pick {p : Profile} {env : Env} {draw idx : ℕ} {s : Builtin} {view : PoolView}
    (h : s.pick p env draw view = .ok (idx, .random)) : s = .random := by
  cases s with
  | random => rfl
  | lowestRtt | sticky => cases h
  | _ =>
      obtain ⟨x, -, hret⟩ := bind_eq_ok.mp h
      cases hret

/-- Neither does a report. -/
theorem eq_random_of_reportError {p : Profile} {idx : ℕ} {s : Builtin}
    (h : s.reportError p idx = .ok .random) : s = .random := by
  cases s with
  | failover s =>
      obtain ⟨x, -, hret⟩ := bind_eq_ok.mp h
      cases hret
  | _ => exact Except.ok.inj h

end Builtin

/-- What the caller is told. -/
def FfiCall.answers (p : Profile) (env : Env) (h : FfiLoadBalancer) : FfiCall → List ℕ
  | .select null dialAddr rows n draw =>
    [(h.rotaLbSelect p env draw null dialAddr rows n).1.toNat]
  | _ => []

namespace World

/-- The select that goes with a dial. -/
def selecting (w : World Builtin) (addr : String) (draw : ℕ) : FfiCall :=
  .select false (some (.utf8 addr)) (some fun i => w.lb.metrics[i]?.elim default tunnelToFfi)
    (UInt32.ofNat w.lb.metrics.length) draw

/-- One event of the balancer, beside it the draw of the select that may go with it. -/
def stepBeside (env : Env) (w : World Builtin) (x : Event Builtin × ℕ) :
    Except Fault (World Builtin) :=
  w.step env x.1

/-- The calls with which the program accompanies an event: a select for a dial that gets as far
as the strategy, a report for the end of one. -/
def calls (w : World Builtin) : Event Builtin × ℕ → List FfiCall
  | (.start addr timeout policy draw, selectDraw) =>
    if w.reachesStrategy (.start addr timeout policy draw) then
      [w.selecting addr selectDraw]
    else []
  | (.lockStrategy k, _) =>
    match w.dials[k]? with
    | some d =>
      match d.phase with
      | .successStrategy => [.reportSuccess false (UInt32.ofNat d.index)]
      | .errorStrategy _ => [.reportError false (UInt32.ofNat d.index)]
      | _ => []
    | none => []
  | _ => []

/-- The select draws the row that the dial draws. -/
def DrawsAlike (env : Env) (n : ℕ) : Event Builtin × ℕ → Prop
  | (.start _ _ _ draw, selectDraw) => env.genRange selectDraw n = env.genRange draw n
  | _ => True

/-- The handle holds the balancer's strategy, and the pool is the one of `w₀`. -/
structure Lockstep (w₀ : World Builtin) (n : UInt32) (w : World Builtin) (h : FfiLoadBalancer) :
    Prop where
  sync : Sync w
  placed : Placed w
  tags : w.tags = w₀.tags
  length : w.lb.metrics.length = n.toNat
  expressible : ∀ m ∈ w.lb.metrics, m.Expressible
  count : h.backendCount = n.toNat
  strategy : h.strategy = .sound w.lb.strategy
  scratch : ∃ v, h.scratch = .sound v
  random : w.lb.strategy = .random → w₀.lb.strategy = .random

variable {env : Env} {w₀ w w' : World Builtin} {n : UInt32} {h : FfiLoadBalancer}

/-- Rows with the same records have the same round-trip times. -/
theorem expressible_of_records {ms ms' : List TunnelMetrics}
    (hrec : ms'.map TunnelMetrics.rtt = ms.map TunnelMetrics.rtt)
    (h : ∀ m ∈ ms, m.Expressible) : ∀ m ∈ ms', m.Expressible := by
  intro m hm
  have hmem : m.rtt ∈ ms.map TunnelMetrics.rtt := hrec ▸ List.mem_map_of_mem hm
  obtain ⟨m₀, hm₀, hrtt⟩ := List.mem_map.mp hmem
  unfold TunnelMetrics.Expressible
  rw [← hrtt]
  exact h m₀ hm₀

/-- The rows that the program passes are the balancer's. -/
theorem Lockstep.rows (hl : Lockstep w₀ n w h) :
    ((List.range n.toNat).map fun i => w.lb.metrics[i]?.elim default tunnelToFfi).map ffiToTunnel =
      w.lb.metrics := by
  refine List.ext_getElem (by simp [hl.length]) fun i _ hi => ?_
  simp only [List.getElem_map, List.getElem_range, List.getElem?_eq_getElem hi, Option.elim_some]
  exact ffiToTunnel_tunnelToFfi (hl.expressible _ (List.getElem_mem hi))

/-- What stays related whatever happens in the pool, if the handle's strategy follows. -/
theorem Lockstep.next {e : Event Builtin} {h' : FfiLoadBalancer} (hl : Lockstep w₀ n w h)
    (hs : w.step env e = .ok w') (htags : w'.tags = w₀.tags) (hcount : h'.backendCount = n.toNat)
    (hstrategy : h'.strategy = .sound w'.lb.strategy) (hscratch : ∃ v, h'.scratch = .sound v)
    (hrandom : w'.lb.strategy = .random → w.lb.strategy = .random) : Lockstep w₀ n w' h' := by
  have hrtts := rtts_of_step hl.sync hs (htags.trans hl.tags.symm)
  have hlen := congrArg List.length hrtts
  simp only [List.length_map] at hlen
  exact ⟨step_sync hl.sync hs, step_placed hl.placed hs, htags, hlen.trans hl.length,
    expressible_of_records hrtts hl.expressible, hcount, hstrategy, hscratch,
    fun heq => hl.random (hrandom heq)⟩

/-- It is answered by the row the dial is routed to, and the strategy follows. -/
theorem Lockstep.select (hl : Lockstep w₀ n w h) {addr : String} {draw idx : ℕ}
    {strategy : Builtin}
    (hpick : w.lb.strategy.pick .release env draw ⟨addr, w.lb.metrics⟩ = .ok (idx, strategy))
    (hlt : idx < w.lb.metrics.length) :
    (w.selecting addr draw).answers .release env h = [idx] ∧
      ∃ h', (w.selecting addr draw).step .release env h = .ok h' ∧
        h'.backendCount = n.toNat ∧ h'.strategy = .sound strategy ∧ ∃ v, h'.scratch = .sound v := by
  have hn : UInt32.ofNat w.lb.metrics.length = n := by rw [hl.length, UInt32.ofNat_toNat]
  have hidx : idx < n.toNat := hl.length ▸ hlt
  obtain ⟨v, hv⟩ := hl.scratch
  have hc : (w.selecting addr draw).accepted h.backendCount =
      some (addr, (List.range h.backendCount).map
        fun i => w.lb.metrics[i]?.elim default tunnelToFfi, draw) := by
    simp [selecting, FfiCall.accepted, hl.count, hn]
  have hpos : 0 < h.backendCount := by
    rw [hl.count]
    omega
  have hselect := @FfiLoadBalancer.rotaLbSelect_of_accepted .release env _ _ _ _ _ _ _ _ _ _ _
    hpos hl.strategy hv hc
  rw [hl.count, hl.rows, hpick] at hselect
  refine ⟨?_, _, rfl, ?_⟩
  · rw [selecting, FfiCall.answers, hselect, FfiLoadBalancer.toNat_of_index hidx]
  · rw [hselect]
    exact ⟨hl.count, rfl, _, rfl⟩

/-- The report that goes with a failed dial. -/
theorem Lockstep.reportError (hl : Lockstep w₀ n w h) (env : Env) {idx : ℕ} {strategy : Builtin}
    (hidx : idx < n.toNat)
    (hreport : BalanceStrategy.reportError w.lb.strategy idx = .ok strategy) :
    (FfiCall.reportError false (UInt32.ofNat idx)).step .release env h =
      .ok { h with strategy := .sound strategy } := by
  have htoNat : (UInt32.ofNat idx).toNat = idx :=
    UInt32.toNat_ofNat_of_lt' (lt_trans hidx n.toNat_lt)
  have htell : w.lb.strategy.reportError .release idx = .ok strategy := hreport
  simp [FfiCall.step, FfiLoadBalancer.rotaLbReportError, FfiLoadBalancer.report, hl.strategy,
    htoNat, htell, catchPanic]

/-- The report that goes with a connection. -/
theorem Lockstep.reportSuccess (hl : Lockstep w₀ n w h) (env : Env) {idx : ℕ} {strategy : Builtin}
    (hidx : idx < n.toNat)
    (hreport : BalanceStrategy.reportSuccess w.lb.strategy idx = .ok strategy) :
    (FfiCall.reportSuccess false (UInt32.ofNat idx)).step .release env h =
      .ok { h with strategy := .sound strategy } := by
  have htoNat : (UInt32.ofNat idx).toNat = idx :=
    UInt32.toNat_ofNat_of_lt' (lt_trans hidx n.toNat_lt)
  simp [FfiCall.step, FfiLoadBalancer.rotaLbReportSuccess, FfiLoadBalancer.report, hl.strategy,
    htoNat, hreport, catchPanic]

/-- The row of a dial in progress. -/
theorem Lockstep.index_lt (hl : Lockstep w₀ n w h) {k : ℕ} {d : Dial} (hd : w.dials[k]? = some d) :
    d.index < n.toNat := by
  obtain ⟨htag, -⟩ := hl.placed.dials d (List.mem_of_getElem? hd)
  have hlt : d.index < w.tags.length := (List.getElem?_eq_some_iff.mp htag).1
  rw [World.tags, List.length_map] at hlt
  obtain ⟨hb, -, hm⟩ := hl.sync.length
  rw [← hl.length, hm, ← hb]
  exact hlt

/-- The strategy is used by dials only, at their two ends, unless it is exchanged. -/
theorem step_silent {e : Event Builtin} (hsync : Sync w) (hs : w.step env e = .ok w')
    (htags : w'.tags = w.tags)
    (hstart : ∀ addr timeout policy draw, e ≠ .start addr timeout policy draw)
    (hlock : ∀ k, e ≠ .lockStrategy k) (hset : ∀ strategy, e ≠ .setStrategy strategy) :
    w'.lb.strategy = w.lb.strategy := by
  cases step_effect hs with
  | routed => exact absurd rfl (hstart _ _ _ _)
  | connected | returned => exact absurd rfl (hlock _)
  | idle | moved | succeeded | errored | cancelled | dropped | stale | checked | written | contended
  | entered | left | drained | undrained => rfl
  | replaced _ hne => exact absurd htags (tags_afterReplace_ne hsync hne _)
  | strategySet => exact absurd rfl (hset _)

/-- **One event of the balancer and the calls that go with it.** -/
theorem lockstep_step {x : Event Builtin × ℕ} (hl : Lockstep w₀ n w h)
    (hs : w.stepBeside env x = .ok w') (htags : w'.tags = w₀.tags)
    (hset : ∀ strategy, x.1 ≠ .setStrategy strategy)
    (hdraw : w₀.lb.strategy = .random → DrawsAlike env n.toNat x) :
    ∃ h', run (FfiCall.step .release env) h (w.calls x) = .ok h' ∧
      gather (FfiCall.step .release env) (FfiCall.answers .release env) h (w.calls x) =
        w.startedAt env x.1 ∧ Lockstep w₀ n w' h' := by
  obtain ⟨e, selectDraw⟩ := x
  replace hs : w.step env e = .ok w' := hs
  replace hset : ∀ strategy, e ≠ .setStrategy strategy := hset
  have hsilent : (∀ addr timeout policy draw, e ≠ .start addr timeout policy draw) →
      (∀ k, e ≠ .lockStrategy k) → w.calls (e, selectDraw) = [] →
      ∃ h', run (FfiCall.step .release env) h (w.calls (e, selectDraw)) = .ok h' ∧
        gather (FfiCall.step .release env) (FfiCall.answers .release env) h
          (w.calls (e, selectDraw)) = w.startedAt env e ∧ Lockstep w₀ n w' h' := by
    intro hstart hlock hcalls
    have hstrategy := step_silent hl.sync hs (htags.trans hl.tags.symm) hstart hlock hset
    have hdials := dials_length_le hs hstart
    rw [hcalls]
    refine ⟨h, rfl, ?_, hl.next hs htags hl.count (hstrategy ▸ hl.strategy) hl.scratch
      hstrategy.symm.trans⟩
    simp [startedAt, hs, List.drop_eq_nil_of_le hdials, gather]
  cases e with
  | start addr timeout policy draw =>
      cases hreaches : w.reachesStrategy (.start addr timeout policy draw) with
      | false =>
          obtain ⟨-, rfl⟩ | ⟨hyes, -⟩ := step_start_cases hs
          · refine ⟨h, by simp [calls, hreaches], ?_, hl⟩
            simp [calls, hreaches, startedAt, hs, gather]
          · rw [hreaches] at hyes
            cases hyes
      | true =>
          obtain ⟨idx, strategy, d, hpick, hlt, hindex, -, rfl⟩ := step_start_routed hreaches hs
          replace hpick : w.lb.strategy.pick .release env draw ⟨addr, w.lb.metrics⟩ =
              .ok (idx, strategy) := hpick
          have hpick' : w.lb.strategy.pick .release env selectDraw ⟨addr, w.lb.metrics⟩ =
              .ok (idx, strategy) := by
            rw [← hpick]
            refine Builtin.pick_eq_of_draw _ fun hrandom => ?_
            rw [PoolView.len, hl.length]
            exact hdraw (hl.random hrandom)
          obtain ⟨hanswer, h', hstep, hcount, hstrategy, hscratch⟩ := hl.select hpick' hlt
          refine ⟨h', ?_, ?_, hl.next hs htags hcount hstrategy hscratch fun hrandom => ?_⟩
          · simp only [calls, hreaches, if_true]
            exact run_singleton.mpr hstep
          · simp only [calls, hreaches, if_true, startedAt, hs, gather_singleton hstep, hanswer]
            simp [afterRoute, hindex]
          · obtain rfl : strategy = .random := hrandom
            exact Builtin.eq_random_of_pick hpick
  | lockStrategy k =>
      cases step_effect hs with
      | idle he => cases he
      | @connected _ _ strategy hd hphase hreport =>
          have hstep := hl.reportSuccess env (hl.index_lt hd) hreport
          refine ⟨{ h with strategy := .sound strategy }, ?_, ?_,
            hl.next hs htags hl.count rfl hl.scratch (Except.ok.inj hreport).trans⟩
          · simp only [calls, hd, hphase]
            exact run_singleton.mpr hstep
          · simp only [calls, hd, hphase, gather_singleton hstep, startedAt, hs]
            simp [FfiCall.answers, List.length_eraseIdx_le]
      | @returned _ _ _ strategy hd hphase hreport =>
          have hstep := hl.reportError env (hl.index_lt hd) hreport
          refine ⟨{ h with strategy := .sound strategy }, ?_, ?_,
            hl.next hs htags hl.count rfl hl.scratch fun hrandom => ?_⟩
          · simp only [calls, hd, hphase]
            exact run_singleton.mpr hstep
          · simp only [calls, hd, hphase, gather_singleton hstep, startedAt, hs]
            simp [FfiCall.answers, List.length_eraseIdx_le]
          · obtain rfl : strategy = .random := hrandom
            exact Builtin.eq_random_of_reportError hreport
      | moved he => rcases he with ⟨_, _, _, he⟩ | he <;> cases he
      | stale he => rcases he with he | he <;> cases he
      | entered _ he => rcases he with ⟨he, -⟩ | ⟨_, he, -⟩ <;> cases he
      | left _ he => cases he
  | _ => exact hsilent (fun _ _ _ _ he => by cases he) (fun _ he => by cases he) rfl

/-- **The C program gets the rows of the balancer.** In a release build, let a handle be created
by `rota_lb_create` for as many backends as a balancer has, the balancer's strategy being in the
state in which that makes it, from any reachable state whose round-trip times can be passed. Over
every run in which the pool and the strategy are not exchanged, the selects of the program return,
one after the other, exactly the rows that the balancer routes its dials to, and in the end the
handle holds the balancer's strategy in the same state. With `Random` this is so if each select
draws the row that the dial draws with which it goes; with the other strategies whatever it
draws. -/
theorem balancer_in_lockstep {kind : Int32} {xs : List (Event Builtin × ℕ)}
    (hw₀ : Reaches (step env) Initial w₀) (hcreate : rotaLbCreate n kind = some h)
    (hcount : w₀.lb.metrics.length = n.toNat) (hstrategy : h.strategy = .sound w₀.lb.strategy)
    (hrtts : ∀ m ∈ w₀.lb.metrics, m.Expressible)
    (hdraws : w₀.lb.strategy = .random → ∀ x ∈ xs, DrawsAlike env n.toNat x)
    (hpool : Throughout (stepBeside env) (fun w => w.tags = w₀.tags) w₀ xs)
    (hset : ∀ x ∈ xs, ∀ strategy, x.1 ≠ .setStrategy strategy)
    (hrun : run (stepBeside env) w₀ xs = .ok w) :
    ∃ h', run (FfiCall.step .release env) h (gather (stepBeside env) calls w₀ xs) = .ok h' ∧
      gather (FfiCall.step .release env) (FfiCall.answers .release env) h
          (gather (stepBeside env) calls w₀ xs) =
        gather (stepBeside env) (fun w x => w.startedAt env x.1) w₀ xs ∧
      h'.strategy = .sound w.lb.strategy := by
  obtain ⟨-, hbackends, hscratch, -⟩ := FfiLoadBalancer.create_eq_some hcreate
  have hplaced : Placed w₀ := hw₀.invariant (fun _ => initial_placed) fun _ _ _ => step_placed
  have hstart : Lockstep w₀ n w₀ h := ⟨reaches_sync hw₀, hplaced, rfl, hcount, hrtts, hbackends,
    hstrategy, ⟨_, hscratch⟩, id⟩
  have halike : ∀ x ∈ xs, w₀.lb.strategy = .random → DrawsAlike env n.toNat x :=
    fun x hx hrandom => hdraws hrandom x hx
  obtain ⟨h', hcalls, hanswers, hl⟩ := run_observes
    (C := fun w x => (∀ w', w.stepBeside env x = .ok w' → w'.tags = w₀.tags) ∧
      (∀ strategy, x.1 ≠ .setStrategy strategy) ∧
      (w₀.lb.strategy = .random → DrawsAlike env n.toNat x))
    (fun _ _ _ _ hl hC hs => lockstep_step hl hs (hC.1 _ hs) hC.2.1 hC.2.2) hstart
    (hpool.along.and ((along_of_forall hset).and (along_of_forall halike))) hrun
  exact ⟨h', hcalls, hanswers, hl.strategy⟩

/-- One backend answers in 2 ms, the other one in 4 ms. -/
def seededPair : World Builtin :=
  ofSeeds [{ rtt := some (.fromMicros 2000) }, { rtt := some (.fromMicros 4000) }]
    (.weightedRoundRobin .new)

/-- A dial that fails, one that connects, one that is cancelled and one more; a connection is
dropped in between. The selects draw something else than the dials. -/
def mixedDials : List (Event Builtin × ℕ) :=
  List.map (fun e => (e, 1)) (Event.failing 0 ++ Event.connecting 0 ++
    [.start "b:2" none none 0, .drop 0, .cancel 0] ++ Event.connecting 0)

theorem balancer_in_lockstep_mixedDials :
    ∃ w h h', rotaLbCreate 2 5 = some h ∧
      run (stepBeside Env.plain) seededPair mixedDials = .ok w ∧
      run (FfiCall.step .release Env.plain) h
        (gather (stepBeside Env.plain) calls seededPair mixedDials) = .ok h' ∧
      gather (FfiCall.step .release Env.plain) (FfiCall.answers .release Env.plain) h
        (gather (stepBeside Env.plain) calls seededPair mixedDials) = [0, 1, 0, 0] ∧
      h'.strategy = .sound w.lb.strategy := by
  have hends : ends (stepBeside Env.plain) (fun _ => true) seededPair mixedDials = true := by decide
  obtain ⟨w, hrun, -⟩ := exists_run_of_ends hends
  have hinit : seededPair.Initial := initial_ofSeeds (by decide) _
  have hrtts : ∀ m ∈ seededPair.lb.metrics, m.Expressible := by
    intro m hm
    rcases List.mem_pair.mp hm with rfl | rfl
    · exact .inr ⟨2000, by decide, rfl⟩
    · exact .inr ⟨4000, by decide, rfl⟩
  have hrows : gather (stepBeside Env.plain) (fun w x => w.startedAt Env.plain x.1) seededPair
      mixedDials = [0, 1, 0, 0] := by decide
  obtain ⟨h', hcalls, hanswers, hstrategy⟩ := balancer_in_lockstep ⟨_, [], hinit, rfl⟩
    (show rotaLbCreate 2 5 = some ⟨.sound (.weightedRoundRobin .new), 2, .weightedRoundRobin,
      .sound []⟩ from rfl) rfl rfl hrtts (fun hrandom => by cases hrandom) (by decide)
    (by simp [mixedDials, Event.failing, Event.connecting]) hrun
  exact ⟨w, _, h', rfl, hrun, hcalls, hanswers.trans hrows, hstrategy⟩

end World

end RotaLb
