import RotaLb.FfiReadback

/-!
# A Handle Made New

`rota_lb_set_strategy` and `rota_lb_reset` put a new strategy into a handle that may have a long
history. The scratch copy of the metrics stays, but `rota_lb_select` fills it before the strategy
looks at it, so nothing of the history shows: from then on the handle answers as a new one would,
up to what `rota_lb_metrics` reads back before the next accepted select.

## Main results

* `FfiLoadBalancer.Twins.step`: two handles that differ in their scratch copies answer alike and
  keep differing in them only.
* `FfiLoadBalancer.renewed_as_new`: **a handle that was reset or given a strategy answers every
  later call as a new one does**, after any history, in a dev or a release build.
-/

namespace RotaLb

open Rust StepSystem

/-- What a call returns. -/
inductive FfiAnswer
  | index (i : UInt32)
  | status (n : Int32)
  | name (text : String)
  | rows (status : Int32) (out : Option (List FfiMetric))
  | nothing
  deriving DecidableEq

/-- What a call on the handle returns. -/
def FfiCall.answer (p : Profile) (env : Env) (h : FfiLoadBalancer) : FfiCall → FfiAnswer
  | .select null dialAddr rows n draw => .index (h.rotaLbSelect p env draw null dialAddr rows n).1
  | .reportError .. | .reportSuccess .. => .nothing
  | .setStrategy null kind => .status (h.rotaLbSetStrategy null kind).1
  | .reset null => .status (h.rotaLbReset null).1
  | .metrics null outNull => .rows (h.rotaLbMetrics null outNull).1 (h.rotaLbMetrics null outNull).2
  | .strategyName null => .name (h.rotaLbStrategyName null)

/-- No call fails. -/
theorem FfiCall.exists_step (p : Profile) (env : Env) (h : FfiLoadBalancer) (c : FfiCall) :
    ∃ h', c.step p env h = .ok h' := by
  cases c <;> exact ⟨_, rfl⟩

/-- The call reads the scratch copy. -/
def FfiCall.reads : FfiCall → Bool
  | .metrics false false => true
  | _ => false

namespace FfiLoadBalancer

variable {p : Profile} {env : Env} {h h' g g' : FfiLoadBalancer} {c : FfiCall}

/-- Two handles that differ in what their scratch copies hold, at most. -/
inductive Twins : FfiLoadBalancer → FfiLoadBalancer → Prop
  | same (h : FfiLoadBalancer) : Twins h h
  | scratch (strategy : Mutex Builtin) (n : ℕ) (kind : FfiStrategy) (v u : List TunnelMetrics)
      (hn : 0 < n) : Twins ⟨strategy, n, kind, .sound v⟩ ⟨strategy, n, kind, .sound u⟩

theorem Twins.backendCount (ht : Twins h g) : h.backendCount = g.backendCount := by
  cases ht <;> rfl

/-- An accepted select fills the scratch copy before anything reads it. -/
theorem rotaLbSelect_scratch {strategy : Mutex Builtin} {n : ℕ} {kind : FfiStrategy}
    (hn : 0 < n) (v u : List TunnelMetrics) {null : Bool} {dialAddr : Option CStr}
    {rows : Option (ℕ → FfiMetric)} {m : UInt32} {draw : ℕ}
    (hc : (FfiCall.select null dialAddr rows m draw).accepted n ≠ none) :
    rotaLbSelect p env draw ⟨strategy, n, kind, .sound v⟩ null dialAddr rows m =
      rotaLbSelect p env draw ⟨strategy, n, kind, .sound u⟩ null dialAddr rows m := by
  obtain ⟨⟨addr, metrics, k⟩, hc⟩ := Option.ne_none_iff_exists'.mp hc
  obtain ⟨rows', m', hcall, hm', -⟩ := FfiCall.eq_of_accepted hc
  cases hcall
  have hcount : ¬ (n = 0 ∨ n ≠ n) := by omega
  simp only [rotaLbSelect, selectImpl, hm', if_neg hcount]

/-- **One call on both**: they answer alike, unless the call reads the scratch copy, they stay
twins, and an accepted select makes them equal. -/
theorem Twins.step (ht : Twins h g) (hh : c.step p env h = .ok h') (hg : c.step p env g = .ok g') :
    (c.reads = false → c.answer p env h = c.answer p env g) ∧ Twins h' g' ∧
      (c.accepted h.backendCount ≠ none → h' = g') := by
  cases ht with
  | same =>
      cases hh.symm.trans hg
      exact ⟨fun _ => rfl, .same _, fun _ => rfl⟩
  | scratch strategy n kind v u hn =>
      cases c with
      | select null dialAddr rows m draw =>
          cases hh
          cases hg
          by_cases hc : (FfiCall.select null dialAddr rows m draw).accepted n = none
          · rw [FfiCall.answer, FfiCall.answer, rotaLbSelect_of_rejected hc,
              rotaLbSelect_of_rejected hc]
            exact ⟨fun _ => rfl, .scratch _ _ _ _ _ hn, fun hne => absurd hc hne⟩
          · rw [FfiCall.answer, FfiCall.answer, rotaLbSelect_scratch hn v u hc]
            exact ⟨fun _ => rfl, .same _, fun _ => rfl⟩
      | reportError null idx =>
          cases hh
          cases hg
          refine ⟨fun _ => rfl, ?_, fun hne => absurd rfl hne⟩
          cases null with
          | true => exact .scratch _ _ _ _ _ hn
          | false =>
              cases strategy with
              | poisoned => exact .scratch _ _ _ _ _ hn
              | sound s =>
                  simp only [rotaLbReportError, report, Bool.false_eq_true, if_false]
                  cases s.reportError p idx.toNat <;> exact .scratch _ _ _ _ _ hn
      | reportSuccess null idx =>
          cases hh
          cases hg
          refine ⟨fun _ => rfl, ?_, fun hne => absurd rfl hne⟩
          cases null with
          | true => exact .scratch _ _ _ _ _ hn
          | false => cases strategy <;> exact .scratch _ _ _ _ _ hn
      | setStrategy null k =>
          cases hh
          cases hg
          simp only [FfiCall.answer, rotaLbSetStrategy]
          cases null with
          | true => exact ⟨fun _ => rfl, .scratch _ _ _ _ _ hn, fun hne => absurd rfl hne⟩
          | false =>
              cases FfiStrategy.fromI32 k <;> cases strategy <;>
                exact ⟨fun _ => rfl, .scratch _ _ _ _ _ hn, fun hne => absurd rfl hne⟩
      | reset null =>
          cases hh
          cases hg
          simp only [FfiCall.answer, rotaLbReset]
          cases null <;> cases strategy <;>
            exact ⟨fun _ => rfl, .scratch _ _ _ _ _ hn, fun hne => absurd rfl hne⟩
      | metrics null outNull =>
          cases hh
          cases hg
          refine ⟨fun hreads => ?_, .scratch _ _ _ _ _ hn, fun hne => absurd rfl hne⟩
          cases null <;> cases outNull <;> first | rfl | cases hreads
      | strategyName null =>
          cases hh
          cases hg
          exact ⟨fun _ => rfl, .scratch _ _ _ _ _ hn, fun hne => absurd rfl hne⟩

/-- The first twin with the scratch copy of the other. -/
theorem Twins.with_scratch (ht : Twins h g) : { h with scratch := g.scratch } = g := by
  cases ht <;> rfl

/-- A panic of a pick poisons both mutexes, so a handle whose strategy works has a scratch copy. -/
structure Kept (n : ℕ) (h : FfiLoadBalancer) : Prop where
  count : h.backendCount = n
  scratch : h.scratch = .poisoned → h.strategy = .poisoned

/-- A poisoned strategy stays poisoned. -/
theorem step_of_poisoned (hstrategy : h.strategy = .poisoned) (hs : c.step p env h = .ok h') :
    h'.strategy = .poisoned ∧ h'.backendCount = h.backendCount := by
  cases c with
  | select null dialAddr rows m draw =>
      cases hs
      cases hc : (FfiCall.select null dialAddr rows m draw).accepted h.backendCount with
      | none =>
          rw [rotaLbSelect_of_rejected hc]
          exact ⟨hstrategy, rfl⟩
      | some args =>
          obtain ⟨rows', m', hcall, hm', -⟩ := FfiCall.eq_of_accepted hc
          cases hcall
          simp only [rotaLbSelect, selectImpl, hstrategy]
          split
          · exact ⟨hstrategy, rfl⟩
          · cases h.scratch with
            | sound => exact ⟨rfl, rfl⟩
            | poisoned => exact ⟨hstrategy, rfl⟩
  | reportError null idx =>
      cases hs
      cases null <;> simp [rotaLbReportError, report, hstrategy, catchPanic]
  | reportSuccess null idx =>
      cases hs
      cases null <;> simp [rotaLbReportSuccess, report, hstrategy, catchPanic]
  | setStrategy null k =>
      cases hs
      cases null <;> cases hk : FfiStrategy.fromI32 k <;> simp [rotaLbSetStrategy, hstrategy, hk]
  | reset null =>
      cases hs
      cases null <;> simp [rotaLbReset, hstrategy]
  | metrics | strategyName =>
      cases hs
      exact ⟨hstrategy, rfl⟩

/-- Every call keeps that, and the number of backends. -/
theorem Kept.step {n : ℕ} (hk : Kept n h) (hn : 0 < n) (hs : c.step p env h = .ok h') :
    Kept n h' := by
  cases hstrategy : h.strategy with
  | poisoned =>
      obtain ⟨hpoisoned, hcount⟩ := step_of_poisoned hstrategy hs
      exact ⟨hcount.trans hk.count, fun _ => hpoisoned⟩
  | sound s =>
      obtain ⟨v, hv⟩ : ∃ v, h.scratch = .sound v := by
        cases hscratch : h.scratch with
        | sound v => exact ⟨v, rfl⟩
        | poisoned =>
            have := hk.scratch hscratch
            rw [hstrategy] at this
            cases this
      cases step_effect (hk.count ▸ hn) hstrategy hv hs with
      | selected | disabled => exact ⟨hk.count, fun _ => by first | rfl | contradiction⟩
      | told | rebuilt => exact ⟨hk.count, fun hp => by rw [hv] at hp; cases hp⟩
      | silenced => exact ⟨hk.count, fun _ => rfl⟩
      | idle => exact hk

/-- **Later calls on both.** -/
theorem run_twins {n : ℕ} {calls : List FfiCall} (ht : Twins h g) (hk : Kept n h) (hn : 0 < n)
    (hh : run (FfiCall.step p env) h calls = .ok h')
    (hg : run (FfiCall.step p env) g calls = .ok g') :
    Twins h' g' ∧ ((∃ c ∈ calls, c.accepted n ≠ none) → h' = g') := by
  induction calls generalizing h g with
  | nil =>
      cases hh
      cases hg
      refine ⟨ht, ?_⟩
      rintro ⟨c, hc, -⟩
      cases hc
  | cons c calls ih =>
      obtain ⟨h₁, hs, hh₁⟩ := run_cons_eq_ok.mp hh
      obtain ⟨g₁, hs', hg₁⟩ := run_cons_eq_ok.mp hg
      obtain ⟨-, ht₁, heq⟩ := ht.step hs hs'
      obtain ⟨ht', hequal⟩ := ih ht₁ (hk.step hn hs) hh₁ hg₁
      refine ⟨ht', ?_⟩
      rintro ⟨c', hc', haccepted⟩
      rcases List.mem_cons.mp hc' with rfl | hmem
      · obtain rfl := heq (hk.count ▸ haccepted)
        exact Except.ok.inj (hh₁.symm.trans hg₁)
      · exact hequal ⟨c', hmem, haccepted⟩

/-- The call puts a new strategy of the given kind into the handle. -/
def Renews (h : FfiLoadBalancer) (kind : Int32) (h' : FfiLoadBalancer) : Prop :=
  h.rotaLbReset false = (0, h') ∧ FfiStrategy.fromI32 kind = some h.strategyKind ∨
    h.rotaLbSetStrategy false kind = (0, h')

/-- It leaves everything else. -/
theorem Renews.eq {kind : Int32} (hr : Renews h kind h') :
    ∃ k s, FfiStrategy.fromI32 kind = some k ∧ h.strategy = .sound s ∧
      h' = ⟨.sound (k.build h.backendCount), h.backendCount, k, h.scratch⟩ := by
  rcases hr with ⟨hreset, hkind⟩ | hset
  · cases hs : h.strategy with
    | poisoned => simp [rotaLbReset, hs] at hreset
    | sound s =>
        simp only [rotaLbReset, hs, Bool.false_eq_true, if_false] at hreset
        exact ⟨_, s, hkind, rfl, (Prod.mk.inj hreset).2.symm⟩
  · cases hkind : FfiStrategy.fromI32 kind with
    | none => simp [rotaLbSetStrategy, hkind] at hset
    | some k =>
        cases hs : h.strategy with
        | poisoned => simp [rotaLbSetStrategy, hkind, hs] at hset
        | sound s =>
            simp only [rotaLbSetStrategy, hkind, hs, Bool.false_eq_true, if_false] at hset
            exact ⟨k, s, rfl, rfl, (Prod.mk.inj hset).2.symm⟩

/-- **A handle that was reset or given a strategy answers as a new one.** After any calls on a
handle, in a dev or a release build, let `rota_lb_reset` or `rota_lb_set_strategy` succeed. A new
handle with the same number of backends and the kind then in use can be created, and after any
further calls made on both, every call is answered alike; the one exception is a read-back of the
metrics with no accepted select among the further calls. -/
theorem renewed_as_new {m : UInt32} {kind kind' : Int32} {h₀ : FfiLoadBalancer}
    {calls : List FfiCall} (hcreate : rotaLbCreate m kind = some h₀)
    (hrun : run (FfiCall.step p env) h₀ calls = .ok h) (hrenew : Renews h kind' h') :
    ∃ g, rotaLbCreate m kind' = some g ∧ ∀ later h'' g'',
      run (FfiCall.step p env) h' later = .ok h'' → run (FfiCall.step p env) g later = .ok g'' →
      ∀ c : FfiCall, c.reads = false ∨ (∃ c' ∈ later, c'.accepted m.toNat ≠ none) →
        c.answer p env h'' = c.answer p env g'' := by
  obtain ⟨hpos, hcount₀, hscratch₀, -⟩ := create_eq_some hcreate
  have hn : 0 < m.toNat := hpos
  have hkept₀ : Kept m.toNat h₀ := ⟨hcount₀, fun hp => by rw [hscratch₀] at hp; cases hp⟩
  have hkept : Kept m.toNat h := run_invariant (fun _ _ _ hk hs => hk.step hn hs) hkept₀ hrun
  obtain ⟨k, s, hkind, hs, rfl⟩ := hrenew.eq
  obtain ⟨v, hv⟩ : ∃ v, h.scratch = .sound v := by
    cases hscratch : h.scratch with
    | sound v => exact ⟨v, rfl⟩
    | poisoned =>
        have := hkept.scratch hscratch
        rw [hs] at this
        cases this
  refine ⟨⟨.sound (k.build m.toNat), m.toNat, k, .sound []⟩, ?_, ?_⟩
  · simp [rotaLbCreate, hkind, UInt32.pos_iff_ne_zero.mp hpos]
  · intro later h'' g'' hh hg c hc
    rw [hkept.count, hv] at hh
    have htwins := Twins.scratch (.sound (k.build m.toNat)) m.toNat k v [] hn
    obtain ⟨ht, hequal⟩ := run_twins htwins ⟨rfl, fun hp => by cases hp⟩ hn hh hg
    rcases hc with hreads | haccepted
    · obtain ⟨h₁, hh₁⟩ := c.exists_step p env h''
      obtain ⟨g₁, hg₁⟩ := c.exists_step p env g''
      exact (ht.step hh₁ hg₁).1 hreads
    · rw [hequal haccepted]

/-- A select under round-robin, then failover and an error of its primary. -/
def wornCalls : List FfiCall :=
  [.select false (some (.utf8 "h:1")) (some extremes) 2 0, .setStrategy false 6,
    .reportError false 0]

/-- A reset brings failover back to its first backend, as in a new handle. -/
theorem renewed_as_new_wornCalls :
    ∃ h h' g, run (FfiCall.step .dev Env.plain) roundRobinPair wornCalls = .ok h ∧
      h.strategy = .sound (.failover ⟨1, 2⟩) ∧ Renews h 6 h' ∧ rotaLbCreate 2 6 = some g ∧
      ∀ c : FfiCall, c.reads = false →
        c.answer .dev Env.plain h' = c.answer .dev Env.plain g := by
  have hends : ends (FfiCall.step .dev Env.plain) (fun h => decide
      (h.strategy = .sound (.failover ⟨1, 2⟩) ∧ h.strategyKind = .failover))
      roundRobinPair wornCalls = true := by decide
  obtain ⟨h, hrun, hh⟩ := exists_run_of_ends hends
  obtain ⟨hstrategy, hkind⟩ := of_decide_eq_true hh
  have hrenew : Renews h 6 (h.rotaLbReset false).2 := by
    refine .inl ⟨?_, by rw [hkind]; rfl⟩
    simp [rotaLbReset, hstrategy]
  have hcreate : rotaLbCreate 2 0 = some roundRobinPair := rfl
  obtain ⟨g, hg, hlater⟩ := renewed_as_new hcreate hrun hrenew
  exact ⟨h, _, g, hrun, hstrategy, hrenew, hg, fun c hc => hlater [] _ _ rfl rfl c (.inl hc)⟩

end FfiLoadBalancer

end RotaLb
