import RotaLb.Custody
import RotaLb.Reconcile

/-!
# The Life of a Backend

The balancer takes custody of its backends: a backend enters the pool once, `Backend::dial` is
called on it while it is there, and `Backend::shutdown` is called on it when it leaves. `Life`
runs a balancer from its construction, through dials, reconfigurations and ticks of a discovery
loop, to the final `LoadBalancer::shutdown`, and keeps the history of these calls.

The history is read off what the operations do: an addition, a replacement and a construction
enter backends, a removal and a replacement shut backends down (`Entry.act?`), a dial calls
`Backend::dial` when it is routed and once more after each back-off sleep (`World.retried`).

## Main results

* `World.step_keeps`, `World.run_keeps`: every event keeps custody of the pool.
* `Life.step_custody`: so does every operation on the balancer, and its shutdown.
* `Life.lifecycle`: **every backend is in the pool and not shut down, or out of it and shut
  down once, and it is never dialled after that.**
-/

namespace RotaLb

open Rust StepSystem Custody

variable {σ : Type}

/-- What a recorded event does with a backend: `use` is a call of `Backend::dial`, `release` a
call of `Backend::shutdown`. -/
def Entry.act? : Entry → Option (Act ℕ)
  | .entered t _ _ => some ⟨.enter, t⟩
  | .routed t => some ⟨.use, t⟩
  | .left t => some ⟨.release, t⟩
  | _ => none

/-- Entries that are not about the pool are no acts. -/
theorem Entry.filterMap_act?_of_not_onPool {es : List Entry} (h : ∀ x ∈ es, x.onPool = false) :
    es.filterMap Entry.act? = [] := by
  refine List.filterMap_eq_nil_iff.mpr fun x hx => ?_
  have := h x hx
  cases x <;> first | rfl | cases this

/-- `LoadBalancer::shutdown`: the backends it calls `shutdown` on, in order. It consumes the
balancer. -/
def LoadBalancer.shutdown (lb : LoadBalancer σ) : List Backend := lb.backends

/-! ### The events of the balancer -/

namespace World

/-- The call of `Backend::dial` with which a dial goes on after its back-off sleep. -/
def retried (w : World σ) : Event σ → List (Act ℕ)
  | .woke k =>
    match w.dials[k]?.bind fun d => w.lb.backends[d.index]? with
    | some b => [⟨.use, b.tag⟩]
    | none => []
  | _ => []

/-- Custody of the pool: held are the backends in it, known are the tags given out. -/
def InCustody (w : World σ) (h : List (Act ℕ)) : Prop := Keeps h (· ∈ w.tags) (· < w.fresh)

variable {w w' : World σ} {h : List (Act ℕ)}

/-- A backend in a slot is in the pool. -/
theorem mem_tags_of_getElem? {i : ℕ} {b : Backend} (hb : w.lb.backends[i]? = some b) :
    b.tag ∈ w.tags :=
  List.mem_of_getElem? (tags_getElem? hb)

/-- A retry calls a backend in the pool. -/
theorem InCustody.retried (hk : w.InCustody h) (e : Event σ) : w.InCustody (h ++ w.retried e) := by
  unfold World.retried
  split
  · split
    · rename_i b hb
      obtain ⟨d, -, hb⟩ := Option.bind_eq_some_iff.mp hb
      exact Keeps.use hk (mem_tags_of_getElem? hb)
    · rwa [List.append_nil]
  · rwa [List.append_nil]

/-- Events that leave the pool alone and record nothing about it. -/
theorem InCustody.quiet (hk : w.InCustody h) (es : List Entry) (htags : w'.tags = w.tags)
    (hfresh : w'.fresh = w.fresh) (hes : ∀ x ∈ es, x.onPool = false) :
    w'.InCustody (h ++ es.filterMap Entry.act?) := by
  rw [Entry.filterMap_act?_of_not_onPool hes, List.append_nil, InCustody, htags, hfresh]
  exact hk

/-- A backend joins under a new tag. -/
theorem InCustody.added (hk : w.InCustody h) (id : Option String) (ptr : ℕ) :
    (w.added id (w.lb.pushBackend id ⟨w.fresh, ptr⟩)).InCustody (h ++ [⟨.enter, w.fresh⟩]) := by
  have henter := Keeps.enter hk (List.nodup_singleton w.fresh) (by simp)
  refine henter.congr (fun t => ?_) fun t => ?_
  · rw [tags_added, List.mem_append]
  · rw [List.mem_singleton]
    exact Nat.lt_succ_iff_lt_or_eq

/-- The backend that is removed is shut down. -/
theorem InCustody.afterLeave (hk : w.InCustody h) (hsync : Sync w) {index : ℕ} {b : Backend}
    (hb : w.lb.backends[index]? = some b) :
    (w.afterLeave index b).InCustody (h ++ [⟨.release, b.tag⟩]) := by
  have hmem := mem_tags_of_getElem? hb
  have hrelease := Keeps.release hk (List.nodup_singleton b.tag) (by simpa using hmem)
  refine hrelease.congr (fun t => ?_) fun t => Iff.rfl
  have hsame : w.tags.filter (fun t => id t ≠ id b.tag) = w.tags.eraseIdx index :=
    Keyed.filter_ne_eq_eraseIdx (by simpa using hsync.nodup) (tags_getElem? hb)
  rw [tags_afterLeave, ← hsame, List.mem_filter, List.mem_singleton]
  simp

/-- All backends are shut down and others take their places. -/
theorem InCustody.afterReplace (hk : w.InCustody h) (hsync : Sync w) (ptrs : List ℕ)
    (strategy : Option σ) :
    (w.afterReplace ptrs strategy).InCustody
      (h ++ w.tags.map (Act.mk .release)
        ++ (List.range' w.fresh ptrs.length).map (Act.mk .enter)) := by
  have hrelease := Keeps.release hk hsync.nodup fun t ht => ht
  have henter := hrelease.enter (List.nodup_range' (s := w.fresh) (n := ptrs.length)) fun t ht => by
    have := (List.mem_range'_1.mp ht).1
    omega
  refine henter.congr (fun t => ?_) fun t => ?_
  · rw [tags_afterReplace]
    simp
  · change t < w.fresh + ptrs.length ↔ _
    rw [List.mem_range'_1]
    omega

/-- A new balancer has taken custody of its backends. -/
theorem initial_inCustody (hw : w.Initial) : w.InCustody (w.log.filterMap Entry.act?) := by
  obtain ⟨lb, seeds, hc, htags, rfl⟩ := hw
  obtain ⟨rfl, -, hlen, -⟩ := hc.constructed
  have hacts : (init lb lb.metrics).log.filterMap Entry.act? =
      (List.range lb.backends.length).map (Act.mk .enter) := by
    have hfst : (lb.backends.zip lb.metrics).map Prod.fst = lb.backends := List.map_fst_zip hlen.ge
    rw [← htags, List.map_map]
    conv_rhs => rw [← hfst, List.map_map]
    rw [init, List.filterMap_map, ← List.filterMap_eq_map]
    rfl
  rw [hacts]
  refine (keeps_nil.enter List.nodup_range (by simp)).congr (fun t => ?_) fun t => ?_
  · rw [tags, init, htags]
    simp
  · simp [init]

variable [BalanceStrategy σ] {env : Env}

/-- **Every event keeps custody of the pool**, with the entries it records. -/
theorem step_keeps {e : Event σ} (hk : w.InCustody h) (hsync : Sync w)
    (hs : w.step env e = .ok w') :
    ∃ es, w'.log = w.log ++ es ∧ w'.InCustody (h ++ es.filterMap Entry.act?) := by
  cases step_effect hs with
  | idle | moved | succeeded | errored | connected | returned | checked | strategySet =>
      exact ⟨[], (List.append_nil _).symm, hk.quiet [] rfl rfl (by simp)⟩
  | @routed _ _ _ _ idx b strategy d _ _ hb _ howner =>
      refine ⟨_, rfl, ?_⟩
      have huse := Keeps.use hk (mem_tags_of_getElem? hb)
      rw [← howner] at huse
      exact huse
  | cancelled =>
      refine ⟨_, rfl, hk.quiet _ rfl rfl ?_⟩
      split <;> simp [Entry.onPool]
  | dropped | written => exact ⟨_, rfl, hk.quiet _ rfl rfl settleEntries_not_onPool⟩
  | stale | contended | drained => exact ⟨_, rfl, hk.quiet _ rfl rfl (by simp [Entry.onPool])⟩
  | undrained =>
      refine ⟨_, rfl, hk.quiet _ rfl rfl fun x hx => ?_⟩
      obtain ⟨t, -, rfl⟩ := Option.map_eq_some_iff.mp (Option.mem_toList.mp hx)
      rfl
  | entered => exact ⟨_, rfl, hk.added _ _⟩
  | left _ _ hb => exact ⟨_, rfl, hk.afterLeave hsync hb⟩
  | @replaced ptrs strategy =>
      refine ⟨_, List.append_assoc _ _ _, ?_⟩
      have hreplace := hk.afterReplace hsync ptrs strategy
      rw [← map_tag_tagFrom] at hreplace
      rw [List.filterMap_append, List.filterMap_map, List.filterMap_map, ← List.append_assoc]
      convert hreplace using 3
      · rw [tags, List.map_map, ← List.filterMap_eq_map]
        rfl
      · rw [List.map_map, ← List.filterMap_eq_map]
        rfl

/-- Every run of events keeps custody of the pool. -/
theorem run_keeps {es : List (Event σ)} (hk : w.InCustody h) (hsync : Sync w)
    (hrun : run (step env) w es = .ok w') :
    ∃ new, w'.log = w.log ++ new ∧ w'.InCustody (h ++ new.filterMap Entry.act?) := by
  induction es generalizing w h with
  | nil =>
      cases hrun
      exact ⟨[], (List.append_nil _).symm, by simpa using hk⟩
  | cons e es ih =>
      obtain ⟨w₁, hstep, hrest⟩ := run_cons_eq_ok.mp hrun
      obtain ⟨new₁, hlog₁, hk₁⟩ := step_keeps hk hsync hstep
      obtain ⟨new₂, hlog₂, hk₂⟩ := ih hk₁ (step_sync hsync hstep) hrest
      refine ⟨new₁ ++ new₂, by rw [hlog₂, hlog₁, List.append_assoc], ?_⟩
      rwa [List.filterMap_append, ← List.append_assoc]

end World

/-! ### The balancer from construction to shutdown -/

/-- A balancer, with its discovery loop if it has one, and the history of its backends.
After `shutdown` the balancer is `closed`. -/
structure Life (σ : Type) where
  discover : Discover σ
  history : List (Act ℕ)
  closed : Bool

/-- An operation on the balancer, or its end. -/
inductive LifeEvent (σ : Type)
  | operation (e : DiscoverEvent σ)
  | shutdown

/-- The retry among the calls of an operation; a tick dials nothing. -/
def Discover.retried (s : Discover σ) : DiscoverEvent σ → List (Act ℕ)
  | .balancer e => s.world.retried e
  | .tick .. => []

/-- The acts of an operation that led from `s` to `s'`. -/
def Discover.acts (s : Discover σ) (e : DiscoverEvent σ) (s' : Discover σ) : List (Act ℕ) :=
  s.retried e ++ (s'.world.log.drop s.world.log.length).filterMap Entry.act?

namespace Life

/-- A newly constructed balancer. -/
def start (s : Discover σ) : Life σ where
  discover := s
  history := s.world.log.filterMap Entry.act?
  closed := false

/-- The tags of the backends in the pool. -/
def pool (s : Life σ) : List ℕ := if s.closed then [] else s.discover.world.tags

/-- Custody over the whole life: of the pool, and of nothing once the balancer is closed. -/
structure Custody (s : Life σ) : Prop where
  sync : s.discover.world.Sync
  keeps : Keeps s.history (· ∈ s.pool) (· < s.discover.world.fresh)

/-- While the balancer is open, its pool is the one of its world. -/
theorem Custody.open {s : Life σ} (h : s.Custody) (hopen : s.closed = false) :
    s.discover.world.InCustody s.history := by
  have := h.keeps
  simp only [pool, hopen, Bool.false_eq_true, if_false] at this
  exact this

variable [BalanceStrategy σ]

/-- One operation. `shutdown` takes the balancer by value: no dial is in progress, and nothing
can be done with the balancer afterwards. -/
def step (env : Env) (s : Life σ) : LifeEvent σ → Except Fault (Life σ)
  | .operation e =>
    if s.closed then .error .disabled
    else do
      let discover ← s.discover.step env e
      return { s with discover, history := s.history ++ s.discover.acts e discover }
  | .shutdown =>
    if s.closed || !s.discover.world.dials.isEmpty then .error .disabled
    else
      let released := s.discover.world.lb.shutdown.map fun b => ⟨.release, b.tag⟩
      .ok { s with history := s.history ++ released, closed := true }

variable {env : Env} {s s' : Life σ}

/-- **Every operation keeps custody**, and the final shutdown releases all that is held. -/
theorem step_custody {e : LifeEvent σ} (h : s.Custody) (hs : s.step env e = .ok s') :
    s'.Custody := by
  cases e with
  | operation e =>
      rw [step] at hs
      split at hs
      · cases hs
      · rename_i hclosed
        obtain ⟨d, hd, hs'⟩ := bind_eq_ok.mp hs
        cases hs'
        have hopen : s.closed = false := by simpa using hclosed
        obtain ⟨es, hrun⟩ := Discover.step_run hd
        have hcalls : s.discover.world.InCustody (s.history ++ s.discover.retried e) := by
          cases e with
          | balancer e => exact (h.open hopen).retried e
          | tick found create => simpa [Discover.retried] using h.open hopen
        obtain ⟨new, hlog, hkeeps⟩ := World.run_keeps hcalls h.sync hrun
        refine ⟨run_invariant (fun _ _ _ => World.step_sync) h.sync hrun, ?_⟩
        simp only [pool, hopen, Bool.false_eq_true, if_false, Discover.acts, hlog,
          List.drop_left, ← List.append_assoc]
        exact hkeeps
  | shutdown =>
      rw [step] at hs
      split at hs
      · cases hs
      · rename_i hclosed
        cases hs
        have hopen : s.closed = false := by
          cases hc : s.closed with
          | false => rfl
          | true => simp [hc] at hclosed
        have hrelease := Keeps.release (h.open hopen) h.sync.nodup fun t ht => ht
        refine ⟨h.sync, ?_⟩
        rw [World.tags, List.map_map] at hrelease
        exact hrelease.congr (fun t => by simp [pool]) fun t => Iff.rfl

/-- **The life of a backend.** After any run of dials, reconfigurations and ticks from a new
balancer, and after its shutdown: no backend is pooled twice; a backend that ever entered the
pool entered it once, and is either in the pool and never shut down, or out of it and shut down
exactly once; what is in the pool has entered it; and no `dial` is called on a backend after its
`shutdown`. -/
theorem lifecycle {s₀ : Discover σ} {es : List (LifeEvent σ)} (h₀ : s₀.world.Initial)
    (hrun : run (step env) (start s₀) es = .ok s) :
    s.pool.Nodup ∧
      (∀ t, ⟨.enter, t⟩ ∈ s.history → s.history.count ⟨.enter, t⟩ = 1 ∧
        (t ∈ s.pool ∧ s.history.count ⟨.release, t⟩ = 0 ∨
          t ∉ s.pool ∧ s.history.count ⟨.release, t⟩ = 1)) ∧
      (∀ t ∈ s.pool, ⟨.enter, t⟩ ∈ s.history) ∧
      ∀ t pre post, s.history = pre ++ ⟨.use, t⟩ :: post → ⟨.release, t⟩ ∉ pre := by
  have hstart : (start s₀).Custody := ⟨World.initial_sync h₀, World.initial_inCustody h₀⟩
  have hcustody : s.Custody := run_invariant (fun _ _ _ => step_custody) hstart hrun
  obtain ⟨hsync, hkeeps⟩ := hcustody
  refine ⟨?_, fun t ht => hkeeps.count (hkeeps.mem_enter_iff.mp ht), fun t ht => ?_,
    fun t pre post => hkeeps.use_before_release⟩
  · rw [pool]
    split
    · exact List.nodup_nil
    · exact hsync.nodup
  · exact hkeeps.mem_enter_iff.mpr (hkeeps.known_of_held ht)

/-- A dial that connects at its second attempt, a tick that adds a backend and one that replaces
it by another, a removal by index, a replacement of the whole pool, and the shutdown. -/
def wholeLife : List (LifeEvent Builtin) :=
  [.operation (.balancer (.start "h:1" none (some (.fixedRetry (.fromMillis 5) none)) 0)),
    .operation (.balancer (.attempted 0 (.failed .noBackends) (.fromMillis 0) 0)),
    .operation (.balancer (.woke 0)),
    .operation (.balancer (.attempted 0 .connected (.fromMillis 0) 0)),
    .operation (.balancer (.lockMetrics 0)),
    .operation (.balancer (.lockStrategy 0)),
    .operation (.tick (.ok [.new "a" "h:1"]) (.failsAt 1)),
    .operation (.tick (.ok [.new "b" "h:2"]) (.failsAt 1)),
    .operation (.balancer (.removeBackend 0)),
    .operation (.balancer (.replaceBackends [7, 8] none)),
    .shutdown]

/-- Over this life six backends enter, one of them is dialled twice, and all are shut down. -/
theorem lifecycle_wholeLife :
    ∃ s, run (step Env.plain) (start ⟨World.ofSize 2 (Builtin.roundRobin ⟨0⟩), fun _ => none⟩)
        wholeLife = .ok s ∧
      (∀ t < 6, ⟨.enter, t⟩ ∈ s.history ∧ s.history.count ⟨.release, t⟩ = 1) ∧
      s.history.count ⟨.use, 0⟩ = 2 ∧
      ∀ t pre post, s.history = pre ++ ⟨.use, t⟩ :: post → ⟨.release, t⟩ ∉ pre := by
  have hends : ends (step Env.plain)
      (fun s => s.pool.isEmpty && (s.history.count ⟨.use, 0⟩ == 2)
        && (List.range 6).all fun t => s.history.contains ⟨.enter, t⟩)
      (start ⟨World.ofSize 2 (Builtin.roundRobin ⟨0⟩), fun _ => none⟩) wholeLife = true := by decide
  obtain ⟨s, hrun, hlast⟩ := exists_run_of_ends hends
  obtain ⟨-, hlife, -, horder⟩ := lifecycle (World.initial_ofSize Nat.two_pos _) hrun
  simp only [Bool.and_eq_true, List.isEmpty_iff, beq_iff_eq, List.all_eq_true, List.mem_range,
    List.contains_iff_mem] at hlast
  obtain ⟨⟨hpool, huse⟩, henter⟩ := hlast
  refine ⟨s, hrun, fun t ht => ⟨henter t ht, ?_⟩, huse, horder⟩
  rcases (hlife t (henter t ht)).2 with ⟨hmem, -⟩ | ⟨-, hone⟩
  · simp [hpool] at hmem
  · exact hone

end Life

end RotaLb
