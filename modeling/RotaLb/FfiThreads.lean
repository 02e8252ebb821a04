import RotaLb.FfiRenewal
import RotaLb.Refinement

/-!
# Threads on One Handle

A handle may be shared by threads. `rota_lb_select` takes the lock of the scratch copy, fills it,
and takes the lock of the strategy inside it; the other calls take one lock, or none. Between its
two locks a select can be overtaken by reports and by changes of the strategy. `rota_lb_reset`
reads the kind of the strategy before it takes the lock, so between the two a
`rota_lb_set_strategy` can come in, and the reset then builds a strategy of the kind that was in
use before it.

The kind is a plain field that `rota_lb_set_strategy` writes under the lock and others read
without it. It is taken here as a word that is read and written as a whole.

## Main results

* `Threads.calls_linearize`: **every interleaving is a sequence of whole calls**, with the same
  answers, but for the resets that were overtaken.
* `Threads.exists_setStrategy_of_overtaken`: a reset is overtaken by a `rota_lb_set_strategy` to
  another kind between its read and its lock, and by nothing else.
* `Threads.name_agrees_iff`: **the name that the handle gives is the strategy's exactly if the last
  change of the strategy was not an overtaken reset**.
-/

namespace RotaLb

open Rust StepSystem

/-- A select that has filled the scratch copy and waits for the lock of the strategy, with the copy
it has overwritten. -/
structure Filled where
  dialAddr : String
  rows : ℕ → FfiMetric
  n : UInt32
  draw : ℕ
  before : List TunnelMetrics

/-- The call. -/
def Filled.call (f : Filled) : FfiCall :=
  .select false (some (.utf8 f.dialAddr)) (some f.rows) f.n f.draw

/-- A handle and the calls that are on their way: the select that has the lock of the scratch copy
and the kinds that resets have read. -/
structure Threads where
  handle : FfiLoadBalancer
  select : Option Filled
  resets : List FfiStrategy

/-- A thread goes on. -/
inductive ThreadEvent
  /-- A call that takes one lock or none. -/
  | call (c : FfiCall)
  /-- An accepted select takes the lock of the scratch copy and fills it. -/
  | fill (dialAddr : String) (rows : ℕ → FfiMetric) (n : UInt32) (draw : ℕ)
  /-- It takes the lock of the strategy and picks. -/
  | pick
  /-- A reset reads the kind. -/
  | readKind
  /-- The `i`-th of the waiting resets takes the lock of the strategy. -/
  | rebuild (i : ℕ)

/-- The call is made in two steps, on a handle for `n` backends. -/
def FfiCall.twoSteps (n : ℕ) : FfiCall → Bool
  | .reset false => true
  | c => (c.accepted n).isSome

/-- No other call is accepted as a select. -/
theorem FfiCall.accepted_of_twoSteps {n : ℕ} {c : FfiCall} (h : c.twoSteps n = false) :
    c.accepted n = none := by
  unfold twoSteps at h
  split at h
  · cases h
  · exact Option.isSome_eq_false_iff.mp h |> Option.isNone_iff_eq_none.mp

/-- Only an accepted select writes the scratch copy. -/
theorem FfiLoadBalancer.step_scratch {p : Profile} {env : Env} {h h' : FfiLoadBalancer}
    {c : FfiCall} (hc : c.accepted h.backendCount = none) (hs : c.step p env h = .ok h') :
    h'.scratch = h.scratch ∧ h'.backendCount = h.backendCount := by
  cases c with
  | select null dialAddr rows n draw =>
      cases hs
      rw [rotaLbSelect_of_rejected hc]
      exact ⟨rfl, rfl⟩
  | reportError null idx =>
      cases hs
      cases null with
      | true => exact ⟨rfl, rfl⟩
      | false =>
          simp only [rotaLbReportError, report, Bool.false_eq_true, if_false]
          cases h.strategy with
          | poisoned => exact ⟨rfl, rfl⟩
          | sound s =>
              simp only
              cases s.reportError p idx.toNat <;> exact ⟨rfl, rfl⟩
  | reportSuccess null idx =>
      cases hs
      simp only [rotaLbReportSuccess, report]
      cases null <;> cases h.strategy <;> exact ⟨rfl, rfl⟩
  | setStrategy null kind =>
      cases hs
      simp only [rotaLbSetStrategy]
      cases null <;> cases FfiStrategy.fromI32 kind <;> cases h.strategy <;> exact ⟨rfl, rfl⟩
  | reset null =>
      cases hs
      simp only [rotaLbReset]
      cases null <;> cases h.strategy <;> exact ⟨rfl, rfl⟩
  | metrics | strategyName =>
      cases hs
      exact ⟨rfl, rfl⟩

/-- Of the other calls only a change of the strategy writes the kind. -/
theorem FfiLoadBalancer.step_strategyKind {p : Profile} {env : Env} {h h' : FfiLoadBalancer}
    {c : FfiCall} (hc : c.accepted h.backendCount = none) (hs : c.step p env h = .ok h') :
    h'.strategyKind = h.strategyKind ∨
      ∃ k, c = .setStrategy false k ∧ FfiStrategy.fromI32 k = some h'.strategyKind := by
  cases c with
  | select null dialAddr rows n draw =>
      cases hs
      rw [rotaLbSelect_of_rejected hc]
      exact .inl rfl
  | reportError null idx =>
      cases hs
      cases null with
      | true => exact .inl rfl
      | false =>
          simp only [rotaLbReportError, report, Bool.false_eq_true, if_false]
          cases h.strategy with
          | poisoned => exact .inl rfl
          | sound s =>
              simp only
              cases s.reportError p idx.toNat <;> exact .inl rfl
  | reportSuccess null idx =>
      cases hs
      simp only [rotaLbReportSuccess, report]
      cases null <;> cases h.strategy <;> exact .inl rfl
  | setStrategy null kind =>
      cases hs
      cases null with
      | true => exact .inl rfl
      | false =>
          simp only [rotaLbSetStrategy, Bool.false_eq_true, if_false]
          cases hkind : FfiStrategy.fromI32 kind with
          | none => exact .inl rfl
          | some k =>
              cases h.strategy with
              | poisoned => exact .inl rfl
              | sound s => exact .inr ⟨kind, rfl, hkind⟩
  | reset null =>
      cases hs
      simp only [rotaLbReset]
      cases null <;> cases h.strategy <;> exact .inl rfl
  | metrics | strategyName =>
      cases hs
      exact .inl rfl

namespace Threads

/-- The scratch copy is filled. -/
def filling (s : Threads) (f : Filled) : Threads :=
  { s with
    handle := { s.handle with
      scratch := .sound (((List.range f.n.toNat).map f.rows).map ffiToTunnel) }
    select := some f }

/-- The select picks and gives back both locks. -/
def picking (p : Profile) (env : Env) (s : Threads) (f : Filled) : FfiAnswer × Threads :=
  match s.handle.strategy, s.handle.scratch with
  | .sound strategy, .sound view =>
    match strategy.pick p env f.draw ⟨f.dialAddr, view⟩ with
    | .ok (i, strategy) =>
      (.index (UInt32.ofNat ((tryFrom 32 i).getD u32Max.toNat)),
        { s with handle := { s.handle with strategy := .sound strategy }, select := none })
    | .error _ => (.index u32Max, { s with handle := s.handle.disabled, select := none })
  | _, _ => (.index u32Max, { s with select := none })

/-- A reset that has read `kind` gets the lock. -/
def rebuilding (h : FfiLoadBalancer) (kind : FfiStrategy) : Int32 × FfiLoadBalancer :=
  match h.strategy with
  | .poisoned => (-1, h)
  | .sound _ => (0, { h with strategy := .sound (kind.build h.backendCount) })

/-- One event, with what is returned to the caller. -/
def exec (p : Profile) (env : Env) (s : Threads) :
    ThreadEvent → Except Unit (List FfiAnswer × Threads)
  | .call c =>
    if c.twoSteps s.handle.backendCount || c.reads && s.select.isSome then .error ()
    else
      match c.step p env s.handle with
      | .ok handle => .ok ([c.answer p env s.handle], { s with handle })
  | .fill dialAddr rows n draw =>
    if n.toNat ≠ s.handle.backendCount ∨ s.select.isSome then .error ()
    else
      match s.handle.scratch with
      | .poisoned => .ok ([.index u32Max], s)
      | .sound before => .ok ([], s.filling ⟨dialAddr, rows, n, draw, before⟩)
  | .pick =>
    match s.select with
    | none => .error ()
    | some f => .ok ([(s.picking p env f).1], (s.picking p env f).2)
  | .readKind => .ok ([], { s with resets := s.resets ++ [s.handle.strategyKind] })
  | .rebuild i =>
    match s.resets[i]? with
    | none => .error ()
    | some kind => .ok ([.status (rebuilding s.handle kind).1],
        { s with handle := (rebuilding s.handle kind).2, resets := s.resets.eraseIdx i })

/-- The state after an event. -/
def step (p : Profile) (env : Env) (s : Threads) (e : ThreadEvent) : Except Unit Threads :=
  (s.exec p env e).map Prod.snd

/-- What an event returns to its caller. -/
def answers (p : Profile) (env : Env) (s : Threads) (e : ThreadEvent) : List FfiAnswer :=
  match s.exec p env e with
  | .ok r => r.1
  | .error _ => []

/-- A handle that no call is under way on. -/
def idle (h : FfiLoadBalancer) : Threads := ⟨h, none, []⟩

end Threads

/-! ### Whole calls -/

/-- A call as a whole, or an overtaken reset: one that builds another kind than the one in use,
because the strategy was exchanged for one of another kind since the reset read it. -/
inductive Commit
  | call (c : FfiCall)
  | overtaken (kind : FfiStrategy)

namespace Commit

/-- The handle after it. -/
def step (p : Profile) (env : Env) (h : FfiLoadBalancer) : Commit → Except Empty FfiLoadBalancer
  | .call c => c.step p env h
  | .overtaken kind => .ok (Threads.rebuilding h kind).2

/-- What it returns. -/
def answers (p : Profile) (env : Env) (h : FfiLoadBalancer) : Commit → List FfiAnswer
  | .call c => [c.answer p env h]
  | .overtaken kind => [.status (Threads.rebuilding h kind).1]

end Commit

namespace Threads

/-- The calls that an event completes. A select that finds the scratch copy poisoned returns at
once; any other one takes effect when it picks. -/
def commits (s : Threads) : ThreadEvent → List Commit
  | .call c => [.call c]
  | .fill dialAddr rows n draw =>
    match s.handle.scratch with
    | .poisoned => [.call (.select false (some (.utf8 dialAddr)) (some rows) n draw)]
    | .sound _ => []
  | .pick => (s.select.map fun f => .call f.call).toList
  | .readKind => []
  | .rebuild i =>
    (s.resets[i]?.map fun kind =>
      if kind = s.handle.strategyKind then .call (.reset false) else .overtaken kind).toList

/-- The handle as the calls see it that are completed: a select that has not picked has not
happened. -/
def shown (s : Threads) : FfiLoadBalancer :=
  { s.handle with
    scratch := s.select.elim s.handle.scratch fun f => .sound f.before }

/-- The select under way was accepted and has filled the scratch copy. -/
structure Filling (s : Threads) : Prop where
  pos : 0 < s.handle.backendCount
  select : ∀ f, s.select = some f → f.n.toNat = s.handle.backendCount ∧
    s.handle.scratch = .sound (((List.range f.n.toNat).map f.rows).map ffiToTunnel)

variable {p : Profile} {env : Env} {s s' : Threads} {c : FfiCall}

/-- The shown handle differs from the one in memory in the scratch copy, at most. -/
theorem Filling.twins (hf : Filling s) : FfiLoadBalancer.Twins s.handle s.shown := by
  cases hs : s.select with
  | none =>
      rw [shown, hs]
      exact .same _
  | some f =>
      obtain ⟨-, hscratch⟩ := hf.select f hs
      have htwins := FfiLoadBalancer.Twins.scratch s.handle.strategy s.handle.backendCount
        s.handle.strategyKind (((List.range f.n.toNat).map f.rows).map ffiToTunnel) f.before hf.pos
      rw [← hscratch] at htwins
      rw [shown, hs]
      exact htwins

/-- A step of the threads, with what it returned. -/
theorem step_eq_ok {e : ThreadEvent} (hs : s.step p env e = .ok s') :
    s.exec p env e = .ok (s.answers p env e, s') := by
  obtain ⟨⟨as, s₁⟩, hexec, rfl⟩ := map_eq_ok.mp hs
  rw [answers, hexec]

/-- A call in one step acts on the shown handle as it does on the one in memory. -/
theorem Filling.call (hf : Filling s) (htwo : c.twoSteps s.handle.backendCount = false)
    (hreads : c.reads = true → s.select = none) {h : FfiLoadBalancer}
    (hs : c.step p env s.handle = .ok h) :
    c.step p env s.shown = .ok { s with handle := h }.shown ∧
      c.answer p env s.shown = c.answer p env s.handle ∧ Filling { s with handle := h } := by
  have hc := FfiCall.accepted_of_twoSteps htwo
  obtain ⟨g, hg⟩ := c.exists_step p env s.shown
  obtain ⟨hanswer, htwins, -⟩ := hf.twins.step hs hg
  obtain ⟨hscratch, hcount⟩ := FfiLoadBalancer.step_scratch hc hs
  have hshown : c.accepted s.shown.backendCount = none := hc
  obtain ⟨hscratch', -⟩ := FfiLoadBalancer.step_scratch hshown hg
  refine ⟨?_, ?_, ⟨hcount ▸ hf.pos, fun f hsel => ?_⟩⟩
  · rw [hg, ← htwins.with_scratch, hscratch', shown, shown, hscratch]
  · cases hr : c.reads with
    | false => exact (hanswer hr).symm
    | true =>
        rw [shown, hreads hr]
        rfl
  · obtain ⟨hn, hfilled⟩ := hf.select f hsel
    exact ⟨hn.trans hcount.symm, hscratch.trans hfilled⟩

/-- A waiting select that takes the lock of the strategy is a whole select on the shown handle. -/
theorem Filling.pick (hf : Filling s) {f : Filled} (hsel : s.select = some f) :
    f.call.step p env s.shown = .ok (s.picking p env f).2.shown ∧
      f.call.answer p env s.shown = (s.picking p env f).1 ∧ Filling (s.picking p env f).2 := by
  obtain ⟨hn, hscratch⟩ := hf.select f hsel
  have hpos : ¬ (s.handle.backendCount = 0 ∨ s.handle.backendCount ≠ s.handle.backendCount) := by
    have := hf.pos
    omega
  have hshown : s.shown = { s.handle with scratch := .sound f.before } := by rw [shown, hsel]; rfl
  rw [hshown]
  simp only [Filled.call, FfiCall.step, FfiCall.answer, FfiLoadBalancer.rotaLbSelect,
    FfiLoadBalancer.selectImpl, picking, hscratch, hn, if_neg hpos]
  cases hstrategy : s.handle.strategy with
  | poisoned =>
      exact ⟨by simp [catchPanic, shown, hscratch, hstrategy, hn], rfl, hf.pos,
        fun f h => by cases h⟩
  | sound strategy =>
      simp only
      cases strategy.pick p env f.draw ⟨f.dialAddr,
          ((List.range s.handle.backendCount).map f.rows).map ffiToTunnel⟩ with
      | ok r => exact ⟨by simp [catchPanic, shown], rfl, hf.pos, fun f h => by cases h⟩
      | error e => exact ⟨rfl, rfl, hf.pos, fun f h => by cases h⟩

/-- A reset that gets the lock. -/
theorem Filling.rebuild (hf : Filling s) (kind : FfiStrategy) (resets : List FfiStrategy) :
    (rebuilding s.shown kind).1 = (rebuilding s.handle kind).1 ∧
      (rebuilding s.shown kind).2 =
        { s with handle := (rebuilding s.handle kind).2, resets }.shown ∧
      Filling { s with handle := (rebuilding s.handle kind).2, resets } := by
  have hstrategy : s.shown.strategy = s.handle.strategy := rfl
  simp only [rebuilding, hstrategy]
  cases s.handle.strategy <;> exact ⟨rfl, rfl, hf.pos, hf.select⟩

/-- A reset that read the kind in use is a whole reset. -/
theorem rebuilding_strategyKind (h : FfiLoadBalancer) :
    rebuilding h h.strategyKind = h.rotaLbReset false := by
  rw [rebuilding, FfiLoadBalancer.rotaLbReset]
  rfl

/-- The event amounts to the calls that it completes: they lead to the shown handle and return
what it returns. -/
structure Amounts (p : Profile) (env : Env) (s : Threads) (e : ThreadEvent) (s' : Threads) :
    Prop where
  step : run (Commit.step p env) s.shown (s.commits e) = .ok s'.shown
  answers : gather (Commit.step p env) (Commit.answers p env) s.shown (s.commits e) =
    s.answers p env e
  filling : Filling s'

/-- An event that completes one call. -/
theorem amounts_of_commit {e : ThreadEvent} {k : Commit} {a : FfiAnswer}
    (hexec : s.exec p env e = .ok ([a], s')) (hk : s.commits e = [k])
    (hstep : k.step p env s.shown = .ok s'.shown) (hanswer : k.answers p env s.shown = [a])
    (hf : Filling s') : Amounts p env s e s' := by
  refine ⟨?_, ?_, hf⟩
  · rw [hk]
    exact run_singleton.mpr hstep
  · rw [hk, gather_singleton hstep, hanswer, answers, hexec]

/-- An event that completes none. -/
theorem amounts_of_silent {e : ThreadEvent} (hexec : s.exec p env e = .ok ([], s'))
    (hk : s.commits e = []) (hshown : s'.shown = s.shown) (hf : Filling s') :
    Amounts p env s e s' := by
  refine ⟨?_, ?_, hf⟩
  · rw [hk, hshown]
    rfl
  · rw [hk, answers, hexec]
    rfl

/-- A select takes the lock of the scratch copy. -/
theorem Filling.fill (hf : Filling s) {dialAddr : String} {rows : ℕ → FfiMetric} {n : UInt32}
    {draw : ℕ} (hn : n.toNat = s.handle.backendCount) (hsel : s.select = none)
    (hs : s.step p env (.fill dialAddr rows n draw) = .ok s') :
    Amounts p env s (.fill dialAddr rows n draw) s' := by
  have hexec := step_eq_ok hs
  have hfree : ¬ (n.toNat ≠ s.handle.backendCount ∨ s.select.isSome) := by simp [hn, hsel]
  have hshown : s.shown = s.handle := by
    rw [shown, hsel]
    rfl
  simp only [exec, if_neg hfree] at hexec
  cases hscratch : s.handle.scratch with
  | poisoned =>
      -- it returns at once, as a whole select does
      simp only [hscratch, Except.ok.injEq, Prod.mk.injEq] at hexec
      obtain ⟨-, rfl⟩ := hexec
      have hpos : ¬ (s.handle.backendCount = 0 ∨
          s.handle.backendCount ≠ s.handle.backendCount) := by
        have := hf.pos
        omega
      have hselect : s.handle.rotaLbSelect p env draw false (some (.utf8 dialAddr)) (some rows) n =
          (u32Max, s.handle) := by
        simp only [FfiLoadBalancer.rotaLbSelect, FfiLoadBalancer.selectImpl, hn, if_neg hpos,
          hscratch, catchPanic]
      refine amounts_of_commit (a := .index u32Max)
        (k := .call (.select false (some (.utf8 dialAddr)) (some rows) n draw)) ?_ ?_ ?_ ?_ hf
      · simp only [exec, if_neg hfree, hscratch]
      · simp only [commits, hscratch]
      · simp only [Commit.step, FfiCall.step, hshown, hselect]
      · simp only [Commit.answers, FfiCall.answer, hshown, hselect]
  | sound before =>
      simp only [hscratch, Except.ok.injEq, Prod.mk.injEq] at hexec
      obtain ⟨-, rfl⟩ := hexec
      refine amounts_of_silent ?_ ?_ ?_ ⟨hf.pos, ?_⟩
      · simp only [exec, if_neg hfree, hscratch]
      · simp only [commits, hscratch]
      · rw [hshown]
        change { s.handle with scratch := .sound before } = s.handle
        rw [← hscratch]
      · rintro f ⟨⟩
        exact ⟨hn, rfl⟩

/-- **One event amounts to the calls that it completes.** -/
theorem commits_step {e : ThreadEvent} (hf : Filling s) (hs : s.step p env e = .ok s') :
    Amounts p env s e s' := by
  have hexec := step_eq_ok hs
  cases e with
  | call c =>
      simp only [exec] at hexec
      split at hexec
      · cases hexec
      · rename_i hfree
        obtain ⟨htwo, hreads⟩ := Bool.or_eq_false_iff.mp (Bool.eq_false_of_not_eq_true hfree)
        obtain ⟨h, hc⟩ := c.exists_step p env s.handle
        obtain ⟨hstep, hanswer, hfill⟩ := hf.call htwo (fun hr => by simpa [hr] using hreads) hc
        rw [hc] at hexec
        simp only [Except.ok.injEq, Prod.mk.injEq] at hexec
        obtain ⟨-, rfl⟩ := hexec
        refine amounts_of_commit ?_ rfl hstep (congrArg (fun a => [a]) hanswer) hfill
        simp [exec, hfree, hc]
  | fill dialAddr rows n draw =>
      simp only [exec] at hexec
      split at hexec
      · cases hexec
      · rename_i hfree
        obtain ⟨hn, hsel⟩ := not_or.mp hfree
        exact hf.fill (not_not.mp hn) (by simpa using hsel) hs
  | pick =>
      cases hsel : s.select with
      | none => simp [exec, hsel] at hexec
      | some f =>
          obtain ⟨hstep, hanswer, hfill⟩ := @Filling.pick p env s hf f hsel
          simp only [exec, hsel, Except.ok.injEq, Prod.mk.injEq] at hexec
          obtain ⟨-, rfl⟩ := hexec
          refine amounts_of_commit (k := .call f.call) ?_ ?_ hstep
            (congrArg (fun a => [a]) hanswer) hfill
          · simp [exec, hsel]
          · simp [commits, hsel]
  | readKind =>
      cases hexec
      exact amounts_of_silent rfl rfl rfl ⟨hf.pos, hf.select⟩
  | rebuild i =>
      cases hkind : s.resets[i]? with
      | none => simp [exec, hkind] at hexec
      | some kind =>
          obtain ⟨hanswer, hstep, hfill⟩ := hf.rebuild kind (s.resets.eraseIdx i)
          simp only [exec, hkind, Except.ok.injEq, Prod.mk.injEq] at hexec
          obtain ⟨-, rfl⟩ := hexec
          by_cases heq : kind = s.handle.strategyKind
          · subst heq
            have hreset : rebuilding s.shown s.handle.strategyKind = s.shown.rotaLbReset false :=
              rebuilding_strategyKind s.shown
            rw [hreset] at hstep hanswer
            refine amounts_of_commit (k := .call (.reset false)) ?_ ?_ (congrArg Except.ok hstep)
              (congrArg (fun n => [FfiAnswer.status n]) hanswer) hfill
            · simp only [exec, hkind]
            · simp [commits, hkind]
          · refine amounts_of_commit (k := .overtaken kind) ?_ ?_ (congrArg Except.ok hstep)
              (congrArg (fun n => [FfiAnswer.status n]) hanswer) hfill
            · simp only [exec, hkind]
            · simp [commits, hkind, heq]

/-- **Every interleaving is a sequence of whole calls.** For a new handle that threads share, in a
dev or a release build: every run of their steps returns to the callers what the calls it
completes return when they are made one after the other in the order of their last steps, and
whenever no select is between its locks the handle is the one those calls lead to. The one
departure is a reset that was overtaken: it builds the kind it has read. -/
theorem calls_linearize {n : UInt32} {kind : Int32} {h : FfiLoadBalancer} {es : List ThreadEvent}
    (hcreate : rotaLbCreate n kind = some h) (hrun : run (step p env) (idle h) es = .ok s) :
    ∃ h', run (Commit.step p env) h (gather (step p env) commits (idle h) es) = .ok h' ∧
      gather (Commit.step p env) (Commit.answers p env) h
          (gather (step p env) commits (idle h) es) =
        gather (step p env) (answers p env) (idle h) es ∧
      (s.select = none → s.handle = h') := by
  obtain ⟨hpos, hcount, -⟩ := FfiLoadBalancer.create_eq_some hcreate
  have hstart : Filling (idle h) ∧ h = (idle h).shown :=
    ⟨⟨by rw [idle, hcount]; exact hpos, fun f h => by cases h⟩, rfl⟩
  obtain ⟨h', hcalls, hanswers, -, rfl⟩ := run_observes (C := fun _ _ => True)
    (R := fun (s : Threads) h => Filling s ∧ h = s.shown)
    (fun s e s' t hR _ hs => by
      obtain ⟨hf, rfl⟩ := hR
      have hstep := commits_step hf hs
      exact ⟨_, hstep.step, hstep.answers, hstep.filling, rfl⟩) hstart
    (along_of_forall (P := fun _ => True) fun _ _ => trivial) hrun
  refine ⟨_, hcalls, hanswers, fun hsel => ?_⟩
  rw [shown, hsel]
  rfl

/-! ### Overtaken resets -/

/-- What one event does to the kind in use and to the resets that wait. -/
theorem step_kinds {e : ThreadEvent} (hs : s.step p env e = .ok s') :
    (s'.handle.strategyKind = s.handle.strategyKind ∨ ∃ k, e = .call (.setStrategy false k) ∧
      FfiStrategy.fromI32 k = some s'.handle.strategyKind) ∧
    ∀ kind ∈ s'.resets, kind ∈ s.resets ∨ e = .readKind ∧ kind = s.handle.strategyKind := by
  have hexec := step_eq_ok hs
  cases e with
  | call c =>
      simp only [exec] at hexec
      split at hexec
      · cases hexec
      · rename_i hfree
        obtain ⟨htwo, -⟩ := Bool.or_eq_false_iff.mp (Bool.eq_false_of_not_eq_true hfree)
        obtain ⟨h, hc⟩ := c.exists_step p env s.handle
        rw [hc] at hexec
        simp only [Except.ok.injEq, Prod.mk.injEq] at hexec
        obtain ⟨-, rfl⟩ := hexec
        refine ⟨?_, fun kind hkind => .inl hkind⟩
        rcases FfiLoadBalancer.step_strategyKind (FfiCall.accepted_of_twoSteps htwo) hc with
          hsame | ⟨k, rfl, hk⟩
        · exact .inl hsame
        · exact .inr ⟨k, rfl, hk⟩
  | fill dialAddr rows n draw =>
      simp only [exec] at hexec
      split at hexec
      · cases hexec
      · split at hexec
        all_goals
          simp only [Except.ok.injEq, Prod.mk.injEq] at hexec
          obtain ⟨-, rfl⟩ := hexec
          exact ⟨.inl rfl, fun kind hkind => .inl hkind⟩
  | pick =>
      cases hsel : s.select with
      | none => simp [exec, hsel] at hexec
      | some f =>
          simp only [exec, hsel, Except.ok.injEq, Prod.mk.injEq] at hexec
          obtain ⟨-, rfl⟩ := hexec
          simp only [picking]
          split
          · split <;> exact ⟨.inl rfl, fun kind hkind => .inl hkind⟩
          · exact ⟨.inl rfl, fun kind hkind => .inl hkind⟩
  | readKind =>
      cases hexec
      refine ⟨.inl rfl, fun kind hkind => ?_⟩
      rcases List.mem_append.mp hkind with hkind | hkind
      · exact .inl hkind
      · exact .inr ⟨rfl, List.mem_singleton.mp hkind⟩
  | rebuild i =>
      cases hkind : s.resets[i]? with
      | none => simp [exec, hkind] at hexec
      | some kind =>
          simp only [exec, hkind, Except.ok.injEq, Prod.mk.injEq] at hexec
          obtain ⟨-, rfl⟩ := hexec
          refine ⟨.inl ?_, fun kind hkind => .inl (List.mem_of_mem_eraseIdx hkind)⟩
          simp only [rebuilding]
          split <;> rfl

/-- The run `es` from `s₀` to `s` holds a point at which `kind` was read. If another kind is in use
at the end, a `rota_lb_set_strategy` after that point has set it. -/
def ReadIn (p : Profile) (env : Env) (s₀ : Threads) (es : List ThreadEvent) (s : Threads)
    (kind : FfiStrategy) : Prop :=
  ∃ es₁ s₁ es₂, es = es₁ ++ .readKind :: es₂ ∧ run (step p env) s₀ es₁ = .ok s₁ ∧
    kind = s₁.handle.strategyKind ∧ (kind ≠ s.handle.strategyKind →
      ∃ k, .call (.setStrategy false k) ∈ es₂ ∧ FfiStrategy.fromI32 k = some s.handle.strategyKind)

/-- **A reset is overtaken only by a `rota_lb_set_strategy`** between its read and its lock, and
only by one to another kind. -/
theorem readIn_of_mem_resets {h : FfiLoadBalancer} {es : List ThreadEvent}
    (hrun : run (step p env) (idle h) es = .ok s) :
    ∀ kind ∈ s.resets, ReadIn p env (idle h) es s kind := by
  refine (run_history (I := fun es s => run (step p env) (idle h) es = .ok s ∧
    ∀ kind ∈ s.resets, ReadIn p env (idle h) es s kind) ⟨rfl, ?_⟩ ?_ hrun).2
  · intro kind hkind
    cases hkind
  · rintro es s e s' ⟨hrun, hread⟩ hs
    obtain ⟨hchange, hresets⟩ := step_kinds hs
    refine ⟨run_append.mpr ⟨s, hrun, run_singleton.mpr hs⟩, fun kind hkind => ?_⟩
    rcases hresets kind hkind with hold | ⟨rfl, rfl⟩
    · obtain ⟨es₁, s₁, es₂, rfl, hrun₁, hsame, hset⟩ := hread kind hold
      refine ⟨es₁, s₁, es₂ ++ [e], by simp, hrun₁, hsame, fun hne => ?_⟩
      rcases hchange with heq | ⟨k, rfl, hk⟩
      · rw [heq] at hne ⊢
        obtain ⟨k, hmem, hk⟩ := hset hne
        exact ⟨k, List.mem_append_left _ hmem, hk⟩
      · exact ⟨k, by simp, hk⟩
    · refine ⟨es, s, [], rfl, hrun, rfl, fun hne => ?_⟩
      rcases hchange with heq | ⟨k, hcall, -⟩
      · exact absurd heq.symm hne
      · cases hcall

/-- A reset that is completed as overtaken has read another kind than the one in use. -/
theorem mem_resets_of_overtaken {e : ThreadEvent} {kind : FfiStrategy}
    (he : .overtaken kind ∈ s.commits e) : kind ∈ s.resets ∧ kind ≠ s.handle.strategyKind := by
  cases e with
  | rebuild i =>
      cases hkind : s.resets[i]? with
      | none => simp [commits, hkind] at he
      | some kind' =>
          by_cases heq : kind' = s.handle.strategyKind
          · simp [commits, hkind, heq] at he
          · obtain rfl : kind = kind' := by simpa [commits, hkind, heq] using he
            exact ⟨List.mem_of_getElem? hkind, heq⟩
  | fill => cases hscratch : s.handle.scratch <;> simp [commits, hscratch] at he
  | pick => cases hsel : s.select <;> simp [commits, hsel] at he
  | call | readKind => simp [commits] at he

/-- **Overtaken means overtaken by a `rota_lb_set_strategy`.** In every run, an event that completes
an overtaken reset comes after a read of the kind and, after that, a call that has set the kind in
use, which is another one. A reset during which the strategy is exchanged for one of the same kind
counts as a whole reset: it does the same. -/
theorem exists_setStrategy_of_overtaken {h : FfiLoadBalancer} {es : List ThreadEvent}
    {e : ThreadEvent} {kind : FfiStrategy} (hrun : run (step p env) (idle h) es = .ok s)
    (he : .overtaken kind ∈ s.commits e) :
    ∃ es₁ s₁ es₂ k, es = es₁ ++ .readKind :: es₂ ∧ run (step p env) (idle h) es₁ = .ok s₁ ∧
      kind = s₁.handle.strategyKind ∧ .call (.setStrategy false k) ∈ es₂ ∧
      FfiStrategy.fromI32 k = some s.handle.strategyKind ∧ kind ≠ s.handle.strategyKind := by
  obtain ⟨hwaits, hne⟩ := mem_resets_of_overtaken he
  obtain ⟨es₁, s₁, es₂, hes, hrun₁, hsame, hset⟩ := readIn_of_mem_resets hrun kind hwaits
  obtain ⟨k, hmem, hk⟩ := hset hne
  exact ⟨es₁, s₁, es₂, k, hes, hrun₁, hsame, hmem, hk, hne⟩

end Threads

/-! ### The name -/

/-- A pick does not change what kind of strategy it is. -/
theorem Builtin.name_of_pick {p : Profile} {env : Env} {draw i : ℕ} {s s' : Builtin}
    {view : PoolView} (h : s.pick p env draw view = .ok (i, s')) : s'.name = s.name := by
  cases s with
  | lowestRtt | sticky =>
      cases h
      rfl
  | _ =>
      obtain ⟨r, -, hr⟩ := bind_eq_ok.mp h
      cases hr
      rfl

/-- Nor does a report. -/
theorem Builtin.name_of_reportError {p : Profile} {idx : ℕ} {s s' : Builtin}
    (h : s.reportError p idx = .ok s') : s'.name = s.name := by
  cases s with
  | failover s =>
      obtain ⟨r, -, hr⟩ := bind_eq_ok.mp h
      cases hr
      rfl
  | _ =>
      cases h
      rfl

/-- No two kinds have the same name. -/
theorem FfiStrategy.name_inj {k k' : FfiStrategy} (h : k.name = k'.name) : k = k' := by
  cases k <;> cases k' <;> first | rfl | (exact absurd h (by decide))

namespace Commit

/-- The call exchanges the strategy, if the mutex is sound. -/
def exchanges : Commit → Bool
  | .call (.setStrategy false kind) => (FfiStrategy.fromI32 kind).isSome
  | .call (.reset false) | .overtaken _ => true
  | _ => false

/-- The call is an overtaken reset. -/
def isOvertaken : Commit → Bool
  | .overtaken _ => true
  | _ => false

/-- The last call that exchanged the strategy was an overtaken reset. -/
def misnames (cs : List Commit) : Bool := (cs.filter exchanges).getLast?.any isOvertaken

theorem misnames_concat (cs : List Commit) (k : Commit) :
    misnames (cs ++ [k]) = if k.exchanges then k.isOvertaken else misnames cs := by
  cases hk : k.exchanges <;> simp [misnames, List.filter_append, hk]

/-- The handle's name for its strategy is right unless `b`. -/
def Names (b : Bool) (h : FfiLoadBalancer) : Prop :=
  ∀ st, h.strategy = .sound st → (st.name = h.strategyKind.name ↔ b = false)

/-- A new strategy of the kind in use is named rightly. -/
theorem names_build {h : FfiLoadBalancer} {kind : FfiStrategy} {n : ℕ}
    (hs : h.strategy = .sound (kind.build n)) (hkind : h.strategyKind = kind) : Names false h := by
  intro st hst
  cases hs.symm.trans hst
  simp [FfiStrategy.name_build, hkind]

/-- A new handle names its strategy rightly. -/
theorem names_create {n : UInt32} {kind : Int32} {h : FfiLoadBalancer}
    (hcreate : rotaLbCreate n kind = some h) : Names false h := by
  rw [rotaLbCreate] at hcreate
  split at hcreate
  · cases hcreate
  · split at hcreate
    · cases hcreate
    · cases hcreate
      exact names_build rfl rfl

/-- A strategy with the old name under the old kind. -/
theorem Names.of_name {b : Bool} {h h' : FfiLoadBalancer} (hn : Names b h)
    (hkind : h'.strategyKind = h.strategyKind)
    (hname : ∀ st', h'.strategy = .sound st' → ∃ st, h.strategy = .sound st ∧ st'.name = st.name) :
    Names b h' := by
  intro st' hst'
  obtain ⟨st, hst, hsame⟩ := hname st' hst'
  rw [hsame, hkind]
  exact hn st hst

/-- A select asks the strategy, which keeps its name. -/
theorem Names.select {p : Profile} {env : Env} {h : FfiLoadBalancer} {b : Bool} (hn : Names b h)
    (null : Bool) (dialAddr : Option CStr) (rows : Option (ℕ → FfiMetric)) (n : UInt32)
    (draw : ℕ) : Names b (h.rotaLbSelect p env draw null dialAddr rows n).2 := by
  cases hc : (FfiCall.select null dialAddr rows n draw).accepted h.backendCount with
  | none =>
      rw [FfiLoadBalancer.rotaLbSelect_of_rejected hc]
      exact hn
  | some args =>
      obtain ⟨rows', n', hcall, -⟩ := FfiCall.eq_of_accepted hc
      cases hcall
      simp only [FfiLoadBalancer.rotaLbSelect, FfiLoadBalancer.selectImpl]
      split
      · exact hn
      · cases h.scratch with
        | poisoned => exact hn
        | sound v =>
            cases hstrategy : h.strategy with
            | poisoned => exact hn.of_name rfl fun _ hst => by simp [catchPanic] at hst
            | sound st =>
                simp only
                split
                · rename_i hpick
                  refine hn.of_name rfl fun st' hst' => ⟨st, hstrategy, ?_⟩
                  cases hst'
                  exact Builtin.name_of_pick hpick
                · exact hn.of_name rfl fun _ h => by cases h

/-- So does a report. -/
theorem Names.report {h : FfiLoadBalancer} {b : Bool} (hn : Names b h)
    {tell : Builtin → Except Panic Builtin}
    (htell : ∀ st st', tell st = .ok st' → st'.name = st.name) :
    Names b (catchPanic (h.report tell) ()).2 := by
  cases hstrategy : h.strategy with
  | poisoned =>
      simp only [FfiLoadBalancer.report, hstrategy]
      exact hn
  | sound st =>
      simp only [FfiLoadBalancer.report, hstrategy]
      split
      · rename_i hst
        refine hn.of_name rfl fun st' hst' => ⟨st, hstrategy, ?_⟩
        cases hst'
        exact htell _ _ hst
      · exact hn.of_name rfl fun _ h => by cases h

/-- **One whole call.** -/
theorem names_step {p : Profile} {env : Env} {h h' : FfiLoadBalancer} {k : Commit} {b : Bool}
    (hn : Names b h) (hk : ∀ kind, k = .overtaken kind → kind ≠ h.strategyKind)
    (hs : k.step p env h = .ok h') :
    Names (if k.exchanges then k.isOvertaken else b) h' := by
  cases k with
  | overtaken kind =>
      cases hs
      intro st hst
      cases hstrategy : h.strategy with
      | poisoned => simp [Threads.rebuilding, hstrategy] at hst
      | sound old =>
          simp only [Threads.rebuilding, hstrategy] at hst ⊢
          cases hst
          rw [FfiStrategy.name_build]
          exact ⟨fun hname => absurd (FfiStrategy.name_inj hname) (hk kind rfl),
            fun h => by cases h⟩
  | call c =>
      cases c with
      | select null dialAddr rows n draw =>
          cases hs
          exact hn.select null dialAddr rows n draw
      | reportError null idx =>
          cases hs
          cases null with
          | true => exact hn
          | false => exact hn.report fun _ _ => Builtin.name_of_reportError
      | reportSuccess null idx =>
          cases hs
          cases null with
          | true => exact hn
          | false => exact hn.report fun _ _ hst => by cases hst; rfl
      | setStrategy null kind =>
          cases hs
          cases null with
          | true => exact hn
          | false =>
              cases hkind : FfiStrategy.fromI32 kind with
              | none => simpa [exchanges, FfiLoadBalancer.rotaLbSetStrategy, hkind] using hn
              | some k =>
                  simp only [exchanges, FfiLoadBalancer.rotaLbSetStrategy, hkind,
                    Bool.false_eq_true, if_false]
                  cases hstrategy : h.strategy with
                  | poisoned => exact fun st hst => by simp [hstrategy] at hst
                  | sound st => exact names_build rfl rfl
      | reset null =>
          cases hs
          cases null with
          | true => exact hn
          | false =>
              simp only [exchanges, FfiLoadBalancer.rotaLbReset, Bool.false_eq_true, if_false]
              cases hstrategy : h.strategy with
              | poisoned => exact fun st hst => by simp [hstrategy] at hst
              | sound st => exact names_build rfl rfl
      | metrics | strategyName =>
          cases hs
          exact hn

end Commit

namespace Threads

variable {p : Profile} {env : Env} {s s' : Threads}

/-- An event completes one call or none, and a reset it calls overtaken was. -/
theorem commits_cases (s : Threads) (e : ThreadEvent) :
    s.commits e = [] ∨ ∃ k, s.commits e = [k] ∧
      ∀ kind, k = .overtaken kind → kind ≠ s.shown.strategyKind := by
  cases e with
  | call c => exact .inr ⟨_, rfl, fun _ h => by cases h⟩
  | fill dialAddr rows n draw =>
      cases hscratch : s.handle.scratch with
      | poisoned =>
          exact .inr ⟨.call (.select false (some (.utf8 dialAddr)) (some rows) n draw),
            by simp only [commits, hscratch], fun _ h => by cases h⟩
      | sound v => exact .inl (by simp only [commits, hscratch])
  | pick =>
      cases hsel : s.select with
      | none => exact .inl (by simp [commits, hsel])
      | some f =>
          exact .inr ⟨.call f.call, by simp [commits, hsel], fun _ h => by cases h⟩
  | readKind => exact .inl rfl
  | rebuild i =>
      cases hkind : s.resets[i]? with
      | none => exact .inl (by simp [commits, hkind])
      | some kind =>
          by_cases heq : kind = s.handle.strategyKind
          · exact .inr ⟨.call (.reset false), by simp [commits, hkind, heq],
              fun _ h => by cases h⟩
          · refine .inr ⟨.overtaken kind, by simp [commits, hkind, heq], ?_⟩
            rintro kind' ⟨⟩
            exact heq

/-- **The name that a shared handle gives for its strategy is right unless the last change of the
strategy was an overtaken reset.** For a new handle and every run of the threads' steps, in a dev
or a release build, as long as no strategy call has panicked. A reset during which the strategy was
exchanged for one of the same kind is not overtaken. -/
theorem name_agrees_iff {n : UInt32} {kind : Int32} {h : FfiLoadBalancer} {es : List ThreadEvent}
    {st : Builtin} (hcreate : rotaLbCreate n kind = some h)
    (hrun : run (step p env) (idle h) es = .ok s) (hsound : s.handle.strategy = .sound st) :
    s.handle.rotaLbStrategyName false = st.name ↔
      Commit.misnames (gather (step p env) commits (idle h) es) = false := by
  obtain ⟨hpos, hcount, -⟩ := FfiLoadBalancer.create_eq_some hcreate
  have hstart : Filling (idle h) ∧ Commit.Names (Commit.misnames []) (idle h).shown := by
    refine ⟨⟨by rw [idle, hcount]; exact hpos, fun f h => by cases h⟩, ?_⟩
    exact Commit.names_create hcreate
  have hend := run_gather (f := commits)
    (I := fun cs s => Filling s ∧ Commit.Names (Commit.misnames cs) s.shown)
    hstart (fun cs s e s' hI hs => by
      obtain ⟨hf, hnames⟩ := hI
      have hstep := commits_step hf hs
      refine ⟨hstep.filling, ?_⟩
      rcases commits_cases s e with hk | ⟨k, hk, hover⟩
      · have hsame := hstep.step
        rw [hk] at hsame
        rw [hk, List.append_nil, ← Except.ok.inj hsame]
        exact hnames
      · rw [hk, Commit.misnames_concat]
        have hone := hstep.step
        rw [hk] at hone
        exact Commit.names_step hnames hover (run_singleton.mp hone)) hrun
  rw [FfiLoadBalancer.rotaLbStrategyName_eq, eq_comm]
  exact hend.2 st hsound

/-- The strategy is exchanged for failover while a select waits for its lock, and exchanged back
while a reset does. -/
def overtaking : List ThreadEvent :=
  [.fill "h:1" FfiLoadBalancer.extremes 2 0, .call (.setStrategy false 6), .pick, .readKind,
    .call (.setStrategy false 0), .rebuild 0, .call (.strategyName false)]

/-- The select takes effect after the exchange, and the reset brings failover back. -/
theorem calls_linearize_overtaking :
    ∃ s h, run (step .dev Env.plain) (idle FfiLoadBalancer.roundRobinPair) overtaking = .ok s ∧
      run (Commit.step .dev Env.plain) FfiLoadBalancer.roundRobinPair
        (gather (step .dev Env.plain) commits (idle FfiLoadBalancer.roundRobinPair)
          overtaking) = .ok h ∧
      gather (Commit.step .dev Env.plain) (Commit.answers .dev Env.plain)
        FfiLoadBalancer.roundRobinPair (gather (step .dev Env.plain) commits
          (idle FfiLoadBalancer.roundRobinPair) overtaking) =
        [.status 0, .index 0, .status 0, .status 0, .name "round_robin"] ∧
      s.handle = h ∧ h.strategy = .sound (.failover ⟨0, 2⟩) := by
  have hends : ends (step .dev Env.plain) (fun s => decide (s.select.isNone = true ∧
      s.handle.strategy = .sound (.failover ⟨0, 2⟩)))
      (idle FfiLoadBalancer.roundRobinPair) overtaking = true := by decide
  obtain ⟨s, hrun, hs⟩ := exists_run_of_ends hends
  obtain ⟨hsel, hstrategy⟩ := of_decide_eq_true hs
  have hcreate : rotaLbCreate 2 0 = some FfiLoadBalancer.roundRobinPair := rfl
  have hanswers : gather (step .dev Env.plain) (answers .dev Env.plain)
      (idle FfiLoadBalancer.roundRobinPair) overtaking =
        [.status 0, .index 0, .status 0, .status 0, .name "round_robin"] := by decide
  obtain ⟨h, hcalls, hsame, hhandle⟩ := calls_linearize hcreate hrun
  have heq := hhandle (Option.isNone_iff_eq_none.mp hsel)
  exact ⟨s, h, hrun, hcalls, hsame.trans hanswers, heq, heq ▸ hstrategy⟩

/-- The handle then calls its failover strategy `round_robin`. -/
theorem name_agrees_iff_overtaking :
    ∃ s, run (step .dev Env.plain) (idle FfiLoadBalancer.roundRobinPair) overtaking = .ok s ∧
      s.handle.strategy = .sound (.failover ⟨0, 2⟩) ∧
      s.handle.rotaLbStrategyName false ≠ (Builtin.failover ⟨0, 2⟩).name := by
  have hends : ends (step .dev Env.plain) (fun s => decide (
      s.handle.strategy = .sound (.failover ⟨0, 2⟩)))
      (idle FfiLoadBalancer.roundRobinPair) overtaking = true := by decide
  obtain ⟨s, hrun, hs⟩ := exists_run_of_ends hends
  have hstrategy := of_decide_eq_true hs
  have hcreate : rotaLbCreate 2 0 = some FfiLoadBalancer.roundRobinPair := rfl
  refine ⟨s, hrun, hstrategy, fun hname => ?_⟩
  have hright := (name_agrees_iff hcreate hrun hstrategy).mp hname
  have hwrong : Commit.misnames (gather (step .dev Env.plain) commits
      (idle FfiLoadBalancer.roundRobinPair) overtaking) = true := by decide
  rw [hwrong] at hright
  cases hright

end Threads

end RotaLb
