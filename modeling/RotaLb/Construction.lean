import RotaLb.Slots

/-!
# What a Failed Construction Leaves Behind

`LoadBalancer::from_factories` and `LoadBalancerBuilder::build` create their backends one
`create` after another and may fail once some of them exist. `Creation` is what such a
constructor does beside what it returns: the backends it has created and the backends it has
called `Backend::shutdown` on. The constructors are written over it with the source's own
control flow, and forgetting the record gives the constructors of `RotaLb.Balancer`.

On an error the vector of created backends is dropped. Dropping a `Box<dyn Backend>` calls
nothing of the `Backend` trait, so `Creation.bind` adds no call where it stops.

## Main results

* `Creation.result_fromFactories`, `Creation.result_build`: the recorded constructors return
  what the plain ones return.
* `Creation.failsLate_fromFactories`, `Creation.failsLate_build`: the inputs on which a
  constructor fails after it has created something.
* `Creation.never_released`: on each of these inputs no created backend is shut down.
-/

namespace RotaLb

/-- What a constructor did: what it returned, the backends whose `create` completed, and the
backends it called `shutdown` on. -/
structure Creation (α : Type) where
  result : Except Error α
  created : List Backend := []
  shutdown : List Backend := []

namespace Creation

variable {α β σ : Type}

/-- A part that creates nothing. -/
def lift (result : Except Error α) : Creation α := { result }

/-- One part after another; an error ends the whole, and what was created is dropped. -/
def bind (c : Creation α) (f : α → Creation β) : Creation β :=
  match c.result with
  | .error e => { c with result := .error e }
  | .ok a =>
    { result := (f a).result
      created := c.created ++ (f a).created
      shutdown := c.shutdown ++ (f a).shutdown }

instance : Monad Creation where
  pure a := lift (.ok a)
  bind := bind

/-- `BackendFactory::create`; a factory stands for what its `create` returns. -/
def create (factory : Except Error BackendOutput) : Creation BackendOutput :=
  { result := factory
    created := match factory with
      | .ok out => [out.backend]
      | .error _ => [] }

/-- The creation loop of both constructors. -/
def createAll : List (Except Error BackendOutput) → Creation (List Backend × List TunnelMetrics)
  | [] => pure ([], [])
  | f :: fs => do
    let out ← create f
    let (backends, metrics) ← createAll fs
    return (out.backend :: backends, out.initialMetrics :: metrics)

/-- `LoadBalancer::from_factories`. -/
def fromFactories (factories : List (Except Error BackendOutput)) (strategy : σ) :
    Creation (LoadBalancer σ) :=
  if factories.isEmpty then
    lift (.error .noBackends)
  else do
    let (backends, metrics) ← createAll factories
    return { backends, ids := List.replicate backends.length none, metrics, strategy,
             generation := 0, dialTimeout := none, retryPolicy := none }

/-- `LoadBalancerBuilder::build`; only the branch with factories creates backends. -/
def build (b : LoadBalancerBuilder σ) : Creation (LoadBalancer σ) :=
  match b.strategy, b.backends, b.factories with
  | some strategy, none, some factories =>
    if factories.isEmpty then
      lift (.error .noBackends)
    else do
      let (created, createdMetrics) ← createAll factories
      let metrics ← lift
        (LoadBalancerBuilder.seeds b.initialMetrics factories.length "factories" createdMetrics)
      lift (LoadBalancer.newWithMetrics created metrics strategy b.dialTimeout b.retryPolicy)
  | _, _, _ => lift b.build

/-! ### The record forgotten -/

theorem result_bind (c : Creation α) (f : α → Creation β) :
    (c >>= f).result = c.result >>= fun a => (f a).result := by
  change (bind c f).result = _
  rw [bind]
  cases c.result with
  | error e => rfl
  | ok a => rfl

@[simp] theorem result_pure (a : α) : (pure a : Creation α).result = .ok a := rfl

@[simp] theorem result_lift (r : Except Error α) : (lift r).result = r := rfl

theorem result_createAll (fs : List (Except Error BackendOutput)) :
    (createAll fs).result = LoadBalancer.createAll fs := by
  induction fs with
  | nil => rfl
  | cons f fs ih =>
    simp only [createAll, LoadBalancer.createAll, result_bind, ih, create]
    rfl

/-- Forgetting the record of `from_factories` gives its result. -/
theorem result_fromFactories (fs : List (Except Error BackendOutput)) (strategy : σ) :
    (fromFactories fs strategy).result = LoadBalancer.fromFactories fs strategy := by
  rw [fromFactories, LoadBalancer.fromFactories]
  split
  · rfl
  · rw [result_bind, result_createAll]
    rfl

/-- Forgetting the record of `build` gives its result. -/
theorem result_build (b : LoadBalancerBuilder σ) : (build b).result = b.build := by
  rw [build]
  split
  next strategy fs hstrategy hbackends hfactories =>
    simp only [LoadBalancerBuilder.build, hstrategy, hbackends, hfactories]
    split
    · rfl
    · rw [result_bind, result_createAll]
      congr 1
      funext x
      exact result_bind _ _
  next => rfl

/-! ### What is created, and what is shut down -/

/-- A part with no call to `shutdown` in it. -/
theorem shutdown_bind {c : Creation α} {f : α → Creation β} (hc : c.shutdown = [])
    (hf : ∀ a, (f a).shutdown = []) : (c >>= f).shutdown = [] := by
  change (bind c f).shutdown = []
  rw [bind]
  split
  · exact hc
  · simp [hc, hf]

theorem shutdown_createAll (fs : List (Except Error BackendOutput)) :
    (createAll fs).shutdown = [] := by
  induction fs with
  | nil => rfl
  | cons f fs ih => exact shutdown_bind rfl fun _ => shutdown_bind ih fun _ => rfl

theorem shutdown_fromFactories (fs : List (Except Error BackendOutput)) (strategy : σ) :
    (fromFactories fs strategy).shutdown = [] := by
  rw [fromFactories]
  split
  · rfl
  · exact shutdown_bind (shutdown_createAll fs) fun _ => rfl

theorem shutdown_build (b : LoadBalancerBuilder σ) : (build b).shutdown = [] := by
  rw [build]
  split
  · split
    · rfl
    · exact shutdown_bind (shutdown_createAll _) fun _ => shutdown_bind rfl fun _ => rfl
  · rfl

theorem created_bind {c : Creation α} {f : α → Creation β} (hf : ∀ a, (f a).created = []) :
    (c >>= f).created = c.created := by
  change (bind c f).created = _
  rw [bind]
  split
  · rfl
  · simp [hf]

/-- Something is created exactly when the first `create` succeeds. -/
theorem created_createAll_ne_nil (fs : List (Except Error BackendOutput)) :
    (createAll fs).created ≠ [] ↔ ∃ out rest, fs = .ok out :: rest := by
  cases fs with
  | nil => simp [createAll, pure, lift]
  | cons f rest =>
    cases f with
    | error e => simp [createAll, create, Bind.bind, bind]
    | ok out => simp [createAll, create, Bind.bind, bind]

theorem createAll_error_iff (fs : List (Except Error BackendOutput)) :
    (∃ e, LoadBalancer.createAll fs = .error e) ↔ ∃ e, .error e ∈ fs := by
  induction fs with
  | nil => simp [LoadBalancer.createAll]
  | cons f rest ih =>
    cases f with
    | error e => simp [LoadBalancer.createAll, Bind.bind, Except.bind]
    | ok out =>
      simp only [List.mem_cons, reduceCtorEq, false_or, ← ih]
      cases h : LoadBalancer.createAll rest with
      | error e => simp [LoadBalancer.createAll, h, Bind.bind, Except.bind]
      | ok made => simp [LoadBalancer.createAll, h, Bind.bind, Except.bind, pure, Except.pure]

/-- An error is returned after some `create` has succeeded. -/
def FailsLate (c : Creation α) : Prop :=
  (∃ e, c.result = .error e) ∧ c.created ≠ []

/-- `shutdown` has been called once for each backend created. -/
def Released (c : Creation α) : Prop :=
  ∀ b ∈ c.created, c.shutdown.count b = c.created.count b

instance (c : Creation α) : Decidable c.Released :=
  inferInstanceAs (Decidable (∀ b ∈ c.created, c.shutdown.count b = c.created.count b))

/-- `from_factories` fails late when the first `create` succeeds and a later one fails. -/
theorem failsLate_fromFactories (fs : List (Except Error BackendOutput)) (strategy : σ) :
    (fromFactories fs strategy).FailsLate ↔
      (∃ out rest, fs = .ok out :: rest) ∧ ∃ e, .error e ∈ fs := by
  rw [FailsLate]
  rw [result_fromFactories, ← created_createAll_ne_nil, ← createAll_error_iff]
  cases fs with
  | nil => simp [fromFactories, lift, createAll, pure]
  | cons f rest =>
    have hcreated : (fromFactories (f :: rest) strategy).created
        = (createAll (f :: rest)).created := created_bind fun _ => rfl
    have hresult : (∃ e, LoadBalancer.fromFactories (f :: rest) strategy = .error e) ↔
        ∃ e, LoadBalancer.createAll (f :: rest) = .error e := by
      simp only [LoadBalancer.fromFactories, List.isEmpty_cons, Bool.false_eq_true, if_false]
      cases LoadBalancer.createAll (f :: rest) with
      | error e => simp [Bind.bind, Except.bind]
      | ok made => simp [Bind.bind, Except.bind, pure, Except.pure]
    rw [hcreated, hresult, and_comm]

/-- Once every backend is created, only a wrong number of metrics makes `build` fail. -/
theorem seeded_error_iff {fs : List (Except Error BackendOutput)} {bs : List Backend}
    {ms : List TunnelMetrics} (hne : fs ≠ []) (hmade : LoadBalancer.createAll fs = .ok (bs, ms))
    (given : Option (List TunnelMetrics)) (strategy : σ) (timeout : Option Duration)
    (policy : Option RetryPolicy) :
    (∃ e, (do
        let metrics ← LoadBalancerBuilder.seeds given fs.length "factories" ms
        LoadBalancer.newWithMetrics bs metrics strategy timeout policy) = .error e) ↔
      ∃ xs, given = some xs ∧ xs.length ≠ fs.length := by
  obtain ⟨hb, hm⟩ := LoadBalancer.createAll_length hmade
  have hbs : bs.isEmpty = false := by
    rw [List.isEmpty_eq_false_iff, ne_eq, ← List.length_eq_zero_iff, hb, List.length_eq_zero_iff]
    exact hne
  have hfits : ∀ {xs : List TunnelMetrics}, xs.length = fs.length →
      ¬ ∃ e, LoadBalancer.newWithMetrics bs xs strategy timeout policy = .error e := by
    intro xs hxs
    simp [LoadBalancer.newWithMetrics, hbs, hb, hxs]
  cases given with
  | none => simpa [LoadBalancerBuilder.seeds, Bind.bind, Except.bind] using hfits hm
  | some xs =>
    by_cases hxs : xs.length = fs.length
    · simpa [LoadBalancerBuilder.seeds, Bind.bind, Except.bind, hxs] using hfits hxs
    · simp [LoadBalancerBuilder.seeds, Bind.bind, Except.bind, hxs]

/-- When `build` over factories fails. -/
theorem build_error_iff {b : LoadBalancerBuilder σ} {strategy : σ}
    {fs : List (Except Error BackendOutput)} (hstrategy : b.strategy = some strategy)
    (hbackends : b.backends = none) (hfactories : b.factories = some fs) (hne : ¬ fs.isEmpty) :
    (∃ e, b.build = .error e) ↔
      (∃ e, .error e ∈ fs) ∨ ∃ xs, b.initialMetrics = some xs ∧ xs.length ≠ fs.length := by
  simp only [LoadBalancerBuilder.build, hstrategy, hbackends, hfactories, if_neg hne,
    ← createAll_error_iff]
  cases hmade : LoadBalancer.createAll fs with
  | error e => simp [Bind.bind, Except.bind]
  | ok made =>
    simp only [reduceCtorEq, exists_false, false_or]
    exact seeded_error_iff (by simpa using hne) hmade _ _ _ _

/-- `build` fails late when it runs factories, the first `create` succeeds, and a later one
fails or the given metrics are not one for each factory. -/
theorem failsLate_build (b : LoadBalancerBuilder σ) :
    (build b).FailsLate ↔ ∃ strategy fs, b.strategy = some strategy ∧ b.backends = none ∧
      b.factories = some fs ∧ (∃ out rest, fs = .ok out :: rest) ∧
      ((∃ e, .error e ∈ fs) ∨ ∃ xs, b.initialMetrics = some xs ∧ xs.length ≠ fs.length) := by
  constructor
  · rintro ⟨herr, hcreated⟩
    rw [result_build] at herr
    rw [build] at hcreated
    split at hcreated
    next strategy fs hstrategy hbackends hfactories =>
      split at hcreated
      · exact absurd rfl hcreated
      next hne =>
        rw [created_bind fun _ => created_bind fun _ => rfl] at hcreated
        exact ⟨strategy, fs, hstrategy, hbackends, hfactories,
          (created_createAll_ne_nil fs).mp hcreated,
          (build_error_iff hstrategy hbackends hfactories hne).mp herr⟩
    next => exact absurd rfl hcreated
  · rintro ⟨strategy, fs, hstrategy, hbackends, hfactories, hfirst, hfail⟩
    have hne : ¬ fs.isEmpty := by
      obtain ⟨out, rest, rfl⟩ := hfirst
      simp
    refine ⟨?_, ?_⟩
    · rw [result_build]
      exact (build_error_iff hstrategy hbackends hfactories hne).mpr hfail
    · simp only [build, hstrategy, hbackends, hfactories, if_neg hne]
      rw [created_bind fun _ => created_bind fun _ => rfl]
      exact (created_createAll_ne_nil fs).mpr hfirst

/-- A late failure without a call to `shutdown` releases nothing. -/
theorem FailsLate.not_released {c : Creation α} (h : c.FailsLate) (hc : c.shutdown = []) :
    ¬ c.Released := by
  intro hall
  obtain ⟨b, hb⟩ := List.exists_mem_of_ne_nil _ h.2
  have hzero : c.created.count b = 0 := by
    rw [← hall b hb, hc, List.count_nil]
  exact List.count_eq_zero.mp hzero hb

/-- **A failed construction releases nothing it created.** Neither constructor calls
`shutdown`, so on every input on which one of them fails after a `create` has succeeded, the
created backends are dropped without it. -/
theorem never_released (fs : List (Except Error BackendOutput)) (strategy : σ)
    (b : LoadBalancerBuilder σ) :
    ((fromFactories fs strategy).FailsLate → ¬ (fromFactories fs strategy).Released) ∧
      ((build b).FailsLate → ¬ (build b).Released) :=
  ⟨fun h => h.not_released (shutdown_fromFactories fs strategy),
    fun h => h.not_released (shutdown_build b)⟩

/-- A factory whose `create` returns the `i`-th backend, without metrics. -/
def working (i : ℕ) : Except Error BackendOutput := .ok ⟨⟨i, i⟩, default⟩

/-- Two factories and the metrics of one backend. -/
def shortBuilder : LoadBalancerBuilder Unit :=
  { factories := some [working 0, working 1], initialMetrics := some [default],
    strategy := some () }

/-- The second `create` fails, or two backends are created for one row of metrics: the
constructor returns an error and what it created is not shut down. -/
theorem never_released_two :
    ((fromFactories [working 0, .error .noBackends] ()).FailsLate ∧
      ¬ (fromFactories [working 0, .error .noBackends] ()).Released) ∧
    (build shortBuilder).FailsLate ∧ ¬ (build shortBuilder).Released := by
  have hfirst : (fromFactories [working 0, .error .noBackends] ()).FailsLate :=
    ⟨⟨_, rfl⟩, by decide⟩
  have hshort : (build shortBuilder).FailsLate := ⟨⟨_, rfl⟩, by decide⟩
  have h := never_released [working 0, .error .noBackends] () shortBuilder
  exact ⟨⟨hfirst, h.1 hfirst⟩, hshort, h.2 hshort⟩

/-- `from_factories` with two backends created and the third `create` failing, and `build` with
both backends created and one row of metrics. -/
theorem created_dropped :
    (fromFactories [working 0, working 1, .error (.factory "refused")] ()).result
        = .error (.factory "refused") ∧
      (fromFactories [working 0, working 1, .error (.factory "refused")] ()).created
        = [⟨0, 0⟩, ⟨1, 1⟩] ∧
      ¬ (fromFactories [working 0, working 1, .error (.factory "refused")] ()).Released ∧
    (build shortBuilder).result
        = .error (.factory "initial_metrics.len() (1) must equal factories.len() (2)") ∧
      (build shortBuilder).created = [⟨0, 0⟩, ⟨1, 1⟩] ∧
      ¬ (build shortBuilder).Released :=
  ⟨rfl, rfl, by decide, rfl, rfl, by decide⟩

end Creation

end RotaLb
