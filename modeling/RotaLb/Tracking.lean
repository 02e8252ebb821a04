import RotaLb.Reconcile

/-!
# Duplicated and Changed Descriptors

Two effects of comparing descriptors with the pool by id only, and with the ids copied before
the first change only.

* Two descriptors with one id are both new, or both known: if they are new, two backends enter
  under that id.
* A descriptor that changed under its id is known: the backend made from the old one stays.

## Main results

* `distinct_iff`: **over a run of ticks the tracked ids stay distinct exactly when no tick
  creates two backends for one id**.
* `follows_iff`: **after every successful tick the pool follows the list exactly when every
  tracked backend that is listed was made from the descriptor listed**.
* `consul_duplicates`, `changed_address_ignored`: runs in which they do not.
-/

namespace RotaLb

open Rust StepSystem

variable {σ : Type}

/-! ### Distinct ids -/

/-- The event adds no tracked id of its own. -/
def Event.addsNoId : Event σ → Prop
  | .addBackendWithId _ _ => False
  | _ => True

/-- The event is a tick, or an event of the balancer that adds no tracked id. -/
def DiscoverEvent.addsNoId : DiscoverEvent σ → Prop
  | .balancer e => e.addsNoId
  | .tick _ _ => True

namespace World

/-- The tracked ids, in the order of the pool. -/
def trackedIds (w : World σ) : List String := w.lb.ids.reduceOption

/-- An event that adds no tracked id leaves some of the tracked ids. -/
theorem step_trackedIds [BalanceStrategy σ] {env : Env} {w w' : World σ} {e : Event σ}
    (he : e.addsNoId) (hs : w.step env e = .ok w') : w'.trackedIds.Sublist w.trackedIds := by
  cases step_effect hs with
  | @entered _ id ptr _ hadd =>
      rcases hadd with ⟨rfl, rfl⟩ | ⟨name, rfl, -⟩
      · have hids : (w.added none (w.lb.pushBackend none ⟨w.fresh, ptr⟩)).trackedIds =
            w.trackedIds := by
          simp [trackedIds, added, LoadBalancer.pushBackend, List.reduceOption]
        rw [hids]
      · exact he.elim
  | left => exact (List.eraseIdx_sublist _ _).filterMap _
  | replaced =>
      rw [trackedIds, World.afterReplace, List.reduceOption_replicate_none]
      exact List.nil_sublist _
  | _ => exact List.Sublist.refl _

end World

/-- **A reconciliation keeps the tracked ids distinct exactly when it creates no two backends for
one id.** -/
theorem Reconciled.From.trackedIds_nodup_iff {r : Reconciled σ} {w : World σ} {rows : List Row}
    {ds : List BackendDescriptor} {create : DescriptorFactory} (h : r.From w rows ds create)
    (hrows : w.HasRows rows) (hnd : w.trackedIds.Nodup) :
    r.world.trackedIds.Nodup ↔
      ((accepted create 0 (wanted w.lb.ids ds)).map BackendDescriptor.id).Nodup := by
  have hsplit : r.world.trackedIds = (keptIds rows ds).reduceOption ++
      (accepted create 0 (wanted w.lb.ids ds)).map BackendDescriptor.id := by
    rw [World.trackedIds, h.ids, List.reduceOption_append]
    congr 1
    simp [List.reduceOption, List.filterMap_map]
  have hkept : (keptIds rows ds).reduceOption.Nodup := by
    refine hnd.sublist ?_
    rw [World.trackedIds, hrows.ids]
    exact (List.filter_sublist.map Row.id).filterMap _
  rw [hsplit, List.nodup_append]
  refine ⟨fun hall => hall.2.1, fun hnew => ⟨hkept, hnew, ?_⟩⟩
  -- a backend is created only for an id that was not tracked
  rintro id hid _ hid' rfl
  obtain ⟨d, hd, rfl⟩ := List.mem_map.mp hid'
  have hnot := (List.mem_filter.mp ((accepted_isPrefix create 0 _).subset hd)).2
  have hold := (some_mem_keptIds.mp (List.reduceOption_mem_iff.mp hid)).1
  rw [← hrows.ids] at hold
  exact absurd hold (by simpa using hnot)

namespace Discover

/-- The tick creates no two backends for one id: among the descriptors that are new and that
the factory gets to before its first failure, no id occurs twice. -/
def CreatesDistinct (s : Discover σ) : DiscoverEvent σ → Prop
  | .tick (.ok ds) create =>
    ((accepted create 0 (wanted s.world.lb.ids ds)).map BackendDescriptor.id).Nodup
  | _ => True

instance (s : Discover σ) : (e : DiscoverEvent σ) → Decidable (s.CreatesDistinct e)
  | .tick (.ok _) _ => inferInstanceAs (Decidable (List.Nodup _))
  | .tick (.error _) _ => .isTrue trivial
  | .balancer _ => .isTrue trivial

section Distinct

variable [BalanceStrategy σ] {env : Env} {s s' : Discover σ} {e : DiscoverEvent σ}

/-- One event keeps the tracked ids distinct exactly when it creates no two backends for one
id. -/
theorem step_distinct_iff (hsync : s.world.Sync) (hnd : s.world.trackedIds.Nodup) (he : e.addsNoId)
    (hs : s.step env e = .ok s') : s'.world.trackedIds.Nodup ↔ s.CreatesDistinct e := by
  cases e with
  | balancer e =>
      obtain ⟨w, hw, hret⟩ := bind_eq_ok.mp hs
      cases hret
      exact iff_of_true (hnd.sublist (World.step_trackedIds he hw)) trivial
  | tick found create =>
      cases found with
      | error e =>
          cases hs
          exact iff_of_true hnd trivial
      | ok ds =>
          obtain ⟨hd, r, hr, rfl⟩ := step_tick_eq_ok hs
          obtain ⟨rows, hrows⟩ := hsync.hasRows
          exact (World.from_of_reconcile hd hrows hr).trackedIds_nodup_iff hrows hnd

/-- Every event keeps the vectors of the balancer in step. -/
theorem step_sync (hsync : s.world.Sync) (hs : s.step env e = .ok s') : s'.world.Sync := by
  obtain ⟨es, hes⟩ := step_run hs
  exact run_invariant (fun _ _ _ => World.step_sync) hsync hes

/-- **Distinct ids over runs.** From a pool with distinct tracked ids, over every run of ticks and
of events that add no tracked id: the tracked ids are distinct in every state if and only if no
tick creates two backends for one id. -/
theorem distinct_iff (hs : Running env s) (hnd : s.world.trackedIds.Nodup)
    {es : List (DiscoverEvent σ)} (hes : ∀ e ∈ es, e.addsNoId)
    (hrun : run (step env) s es = .ok s') :
    Throughout (step env) (fun s => s.world.trackedIds.Nodup) s es ↔
      Along (step env) CreatesDistinct s es := by
  have hstart : s.world.Sync ∧ s.world.trackedIds.Nodup := ⟨World.reaches_sync hs.world, hnd⟩
  have hD : Along (step env) (fun s e => e.addsNoId ∧ ∃ s', step env s e = .ok s') s es :=
    (along_of_forall hes).and (along_of_run hrun)
  constructor
  · refine along_of_throughout (I := fun s => s.world.Sync ∧ s.world.trackedIds.Nodup) ?_ ?_
      hstart hD
    · rintro s e s' ⟨hsync, hnd⟩ ⟨⟨he, -⟩, hC⟩ hstep
      exact ⟨step_sync hsync hstep, (step_distinct_iff hsync hnd he hstep).mpr hC⟩
    · rintro s e ⟨hsync, hnd⟩ ⟨he, s', hstep⟩ hafter
      exact (step_distinct_iff hsync hnd he hstep).mp (hafter s' hstep)
  · intro hC
    refine (throughout_invariant (I := fun s => s.world.Sync ∧ s.world.trackedIds.Nodup) ?_ hstart
      (hD.and hC)).imp fun s hI => hI.2
    rintro s e s' ⟨hsync, hnd⟩ ⟨⟨he, -⟩, hC⟩ hstep
    exact ⟨step_sync hsync hstep, (step_distinct_iff hsync hnd he hstep).mpr hC⟩

end Distinct

/-- A `Discover` around a new balancer over one backend. -/
def fresh : Discover Builtin := ⟨World.ofSize 1 (.roundRobin ⟨0⟩), fun _ => none⟩

theorem fresh_running : Running Env.plain fresh :=
  ⟨fresh, [], ⟨_, [], World.initial_ofSize Nat.one_pos _, rfl⟩, rfl⟩

/-- Two ticks without repeated ids. -/
def twoTicks : List (DiscoverEvent Builtin) :=
  [.tick (.ok [.new "a" "h:1", .new "b" "h:2"]) (.failsAt 2),
    .tick (.ok [.new "b" "h:2", .new "c" "h:3"]) (.failsAt 2)]

theorem distinct_twoTicks :
    Throughout (step Env.plain) (fun s => s.world.trackedIds.Nodup) fresh twoTicks := by
  have hends : ends (step Env.plain) (fun _ => true) fresh twoTicks = true := by decide
  obtain ⟨s', hrun, -⟩ := exists_run_of_ends hends
  refine (distinct_iff fresh_running (by decide) (fun e he => ?_) hrun).mpr (by decide)
  rcases List.mem_pair.mp he with rfl | rfl <;> trivial

/-- Two entries of a Consul catalog without a service id get the same empty id, and both become
backends of a pool that tracked nothing. -/
theorem consul_duplicates :
    fresh.world.trackedIds.Nodup ∧
    ∃ s', fresh.step Env.plain (.tick (consulDiscover none (.ok
        [{ serviceAddress := some "h", servicePort := some 1 },
          { serviceAddress := some "h", servicePort := some 2 }])) (.failsAt 2)) = .ok s' ∧
      s'.world.trackedIds = ["", ""] ∧ ¬ s'.world.trackedIds.Nodup := by
  refine ⟨by decide, ?_⟩
  have hends : ends (step Env.plain) (fun s => decide (s.world.trackedIds = ["", ""])) fresh
      [.tick (consulDiscover none (.ok
        [{ serviceAddress := some "h", servicePort := some 1 },
          { serviceAddress := some "h", servicePort := some 2 }])) (.failsAt 2)] = true := by decide
  obtain ⟨s', hrun, hids⟩ := exists_run_of_ends hends
  obtain ⟨s₁, hstep, hret⟩ := run_cons_eq_ok.mp hrun
  cases hret
  have heq := of_decide_eq_true hids
  exact ⟨s', hstep, heq, by rw [heq]; decide⟩

/-! ### Changed descriptors -/

/-- Every tracked backend was created from the descriptor that the list has for its id. -/
def Follows (s : Discover σ) (ds : List BackendDescriptor) : Prop :=
  ∀ (i : ℕ) (b : Backend) (id : String), s.world.lb.backends[i]? = some b →
    s.world.lb.ids[i]? = some (some id) → ∃ d ∈ ds, d.id = id ∧ s.origin b.tag = some d

/-- Every tracked backend that is listed was created from the descriptor listed. -/
def Unchanged (s : Discover σ) (ds : List BackendDescriptor) : Prop :=
  ∀ (i : ℕ) (b : Backend) (id : String), s.world.lb.backends[i]? = some b →
    s.world.lb.ids[i]? = some (some id) → ∀ d ∈ ds, d.id = id → s.origin b.tag = some d

/-- A property of the tracked backends and their ids, read off the rows. -/
theorem forall_tracked_iff {w : World σ} {rows : List Row} (h : w.HasRows rows)
    {P : Backend → String → Prop} :
    (∀ (i : ℕ) (b : Backend) (id : String), w.lb.backends[i]? = some b →
      w.lb.ids[i]? = some (some id) → P b id) ↔
    ∀ row ∈ rows, ∀ id, row.id = some id → P row.backend id := by
  rw [h.backends, h.ids]
  simp only [List.getElem?_map]
  constructor
  · intro hall row hrow id hid
    obtain ⟨i, hi⟩ := List.mem_iff_getElem?.mp hrow
    exact hall i row.backend id (by rw [hi]; rfl) (by rw [hi, ← hid]; rfl)
  · intro hall i b id hb hid
    obtain ⟨row, hrow, rfl⟩ := Option.map_eq_some_iff.mp hb
    rw [hrow] at hid
    exact hall row (List.mem_of_getElem? hrow) id (Option.some.inj hid)

variable {s s' : Discover σ} {ds ds' : List BackendDescriptor} {create : DescriptorFactory}
  {r : Reconciled σ} {rows : List Row}

/-- A pool that follows a list is unchanged in the next one, if that lists no other descriptor
for an id of the first. -/
theorem Follows.unchanged (h : s.Follows ds) (hsame : ∀ d ∈ ds, ∀ d' ∈ ds', d.id = d'.id → d = d') :
    s.Unchanged ds' := by
  intro i b id hb hid d' hd' hdid
  obtain ⟨d, hd, hdid', horigin⟩ := h i b id hb hid
  rw [← hsame d hd d' hd' (hdid'.trans hdid.symm)]
  exact horigin

/-- A tick does not change where an older backend comes from. -/
theorem origin_of_old (hfrom : r.From s.world rows ds create) {t : ℕ} (ht : t < s.world.fresh) :
    (s.reconciled r).origin t = s.origin t := by
  have hnone : r.created.lookup t = none := by
    refine List.lookup_eq_none_iff.mpr fun c hc => ?_
    have hge := hfrom.fresh_le (List.mem_map_of_mem hc)
    simpa using (show t ≠ c.1 by omega)
  simp only [reconciled, hnone, Option.none_or]

/-- A backend created by a tick comes from the descriptor listed for its id. -/
theorem origin_of_created (hfrom : r.From s.world rows ds create) {c : ℕ × BackendDescriptor}
    (hc : c ∈ r.created) : c.2 ∈ ds ∧ (s.reconciled r).origin c.1 = some c.2 := by
  have hnd : (r.created.map Prod.fst).Nodup := hfrom.tags ▸ List.nodup_range'
  constructor
  · have hmem : c.2 ∈ accepted create 0 (wanted s.world.lb.ids ds) :=
      hfrom.descriptors ▸ List.mem_map_of_mem hc
    exact List.mem_of_mem_filter ((accepted_isPrefix create 0 _).subset hmem)
  · simp only [reconciled, Keyed.lookup_of_mem hnd hc, Option.some_or]

section Tick

variable [BalanceStrategy σ] {env : Env}

/-- **One tick**: afterwards the pool follows the list exactly when no listed descriptor has
changed under its id. -/
theorem follows_reconciled_iff (hsync : s.world.Sync) (hd : s.world.dials = [])
    (hr : s.world.reconcile env ds create = .ok r) (hnd : (ds.map BackendDescriptor.id).Nodup) :
    (s.reconciled r).Follows ds ↔ s.Unchanged ds := by
  obtain ⟨rows, hrows⟩ := hsync.hasRows
  have hfrom := World.from_of_reconcile hd hrows hr
  obtain ⟨added, hrows', hids, htags, -⟩ := hfrom.rows
  have hold : ∀ row ∈ rows, (s.reconciled r).origin row.backend.tag =
      s.origin row.backend.tag := by
    intro row hrow
    refine origin_of_old hfrom (hsync.fresh _ ?_)
    rw [hrows.tags]
    exact List.mem_map_of_mem hrow
  have hfollows : (s.reconciled r).Follows ds ↔ _ := forall_tracked_iff (w := r.world) hrows'
  have hunchanged : s.Unchanged ds ↔ _ := forall_tracked_iff hrows
  rw [hfollows, hunchanged]
  constructor
  · intro hall row hrow id hid d hds hdid
    have hkept : row ∈ rows.filter (Row.listed (ds.map BackendDescriptor.id)) := by
      refine List.mem_filter.mpr ⟨hrow, ?_⟩
      rw [Row.listed, hid]
      exact decide_eq_true (hdid ▸ List.mem_map_of_mem hds)
    obtain ⟨d', hds', hdid', horigin⟩ := hall row (List.mem_append_left _ hkept) id hid
    obtain rfl : d = d' := List.inj_on_of_nodup_map hnd hds hds' (hdid.trans hdid'.symm)
    rwa [hold row hrow] at horigin
  · intro hall row hrow id hid
    rcases List.mem_append.mp hrow with hrow | hrow
    · obtain ⟨hmem, hlisted⟩ := List.mem_filter.mp hrow
      rw [Row.listed, hid] at hlisted
      obtain ⟨d, hds, hdid⟩ := List.mem_map.mp (of_decide_eq_true hlisted)
      refine ⟨d, hds, hdid, ?_⟩
      rw [hold row hmem]
      exact hall row hmem id hid d hds hdid
    · -- the row and the record of its creation stand at the same place
      obtain ⟨i, hi⟩ := List.mem_iff_getElem?.mp hrow
      have hid' := congrArg (·[i]?) hids
      have htag := congrArg (·[i]?) htags
      simp only [List.getElem?_map, hi, Option.map_some] at hid' htag
      obtain ⟨c, hc, hctag⟩ := Option.map_eq_some_iff.mp htag.symm
      rw [hc, Option.map_some, hid, Option.some.injEq, Option.some.injEq] at hid'
      obtain ⟨hds, horigin⟩ := origin_of_created (s := s) hfrom (List.mem_of_getElem? hc)
      exact ⟨c.2, hds, hid'.symm, hctag ▸ horigin⟩

/-- The event is a tick whose reconciliation returns `Ok` for a list without repeated ids. -/
def Settles (env : Env) (s : Discover σ) (e : DiscoverEvent σ) (ds : List BackendDescriptor) :
    Prop :=
  ∃ create r, e = .tick (.ok ds) create ∧ s.world.reconcile env ds create = .ok r ∧
    r.result = .ok () ∧ (ds.map BackendDescriptor.id).Nodup

/-- **Changed descriptors over runs.** Over every run of ticks and of events of the balancer: the
pool follows the list after every tick that settles it if and only if, before each of these
ticks, every tracked backend that is listed was created from the descriptor listed. -/
theorem follows_iff (hs : Running env s) {es : List (DiscoverEvent σ)}
    (hrun : run (step env) s es = .ok s') :
    Along (step env) (fun s e => ∀ ds, Settles env s e ds →
        ∀ s', s.step env e = .ok s' → s'.Follows ds) s es ↔
      Along (step env) (fun s e => ∀ ds, Settles env s e ds → s.Unchanged ds) s es := by
  refine along_congr (I := fun s => s.world.Sync) (fun s e s' hI _ hstep => step_sync hI hstep) ?_
    (World.reaches_sync hs.world) (along_of_run hrun)
  rintro s e hsync ⟨s', hstep⟩
  refine forall₂_congr fun ds hsettles => ?_
  obtain ⟨create, r, rfl, hr, -, hnd⟩ := hsettles
  obtain ⟨hd, r', hr', rfl⟩ := step_tick_eq_ok hstep
  cases hr.symm.trans hr'
  have hone := follows_reconciled_iff hsync hd hr hnd
  constructor
  · exact fun hall => hone.mp (hall _ hstep)
  · intro hunchanged s'' hstep''
    cases hstep.symm.trans hstep''
    exact hone.mpr hunchanged

end Tick

/-- A pool without tracked ids is unchanged in any list. -/
theorem fresh_unchanged (ds : List BackendDescriptor) : fresh.Unchanged ds := by
  intro i b id _ hid
  cases i with
  | zero => cases hid
  | succ i => cases hid

/-- The descriptor of "b" stays the same over the two ticks. -/
theorem follows_twoTicks :
    Along (step Env.plain) (fun s e => ∀ ds, Settles Env.plain s e ds →
      ∀ s', s.step Env.plain e = .ok s' → s'.Follows ds) fresh twoTicks := by
  have hends : ends (step Env.plain) (fun _ => true) fresh twoTicks = true := by decide
  obtain ⟨s', hrun, -⟩ := exists_run_of_ends hends
  refine (follows_iff fresh_running hrun).mpr ⟨fun ds _ => fresh_unchanged ds, fun s₁ hs₁ => ?_⟩
  obtain ⟨hd, r, hr, rfl⟩ := step_tick_eq_ok hs₁
  have hfollows := (follows_reconciled_iff (World.reaches_sync fresh_running.world) hd hr
    (by decide)).mpr (fresh_unchanged _)
  refine ⟨?_, fun _ _ => trivial⟩
  rintro ds ⟨create, r', heq, -⟩
  cases heq
  refine hfollows.unchanged fun d hd d' hd' he => ?_
  rcases List.mem_pair.mp hd with rfl | rfl <;> rcases List.mem_pair.mp hd' with rfl | rfl
  · exact absurd he (by decide)
  · exact absurd he (by decide)
  · rfl
  · exact absurd he (by decide)

/-- **A backend registered again under its id with another address is not replaced**: both ticks
succeed, and the backend stays the one made for the first address. -/
theorem changed_address_ignored :
    ∃ s₁ s₂,
      fresh.step Env.plain (.tick (.ok [.new "a" "h:1"]) (.failsAt 1)) = .ok s₁ ∧
      s₁.step Env.plain (.tick (.ok [.new "a" "h:2"]) (.failsAt 1)) = .ok s₂ ∧
      fresh.world.reconcilesOk Env.plain [.new "a" "h:1"] (.failsAt 1) = true ∧
      s₁.world.reconcilesOk Env.plain [.new "a" "h:2"] (.failsAt 1) = true ∧
      s₂.world.lb.ids[1]? = some (some "a") ∧
      (s₂.origin 1).map BackendDescriptor.addr = some "h:1" ∧
      ¬ s₂.Follows [.new "a" "h:2"] := by
  have hends₁ : ends (step Env.plain)
      (fun s => s.world.reconcilesOk Env.plain [.new "a" "h:2"] (.failsAt 1)) fresh
      [.tick (.ok [.new "a" "h:1"]) (.failsAt 1)] = true := by decide
  have hends₂ : ends (step Env.plain)
      (fun s => decide (s.world.lb.backends[1]? = some (⟨1, 0⟩ : Backend) ∧
        s.world.lb.ids[1]? = some (some "a") ∧
        (s.origin 1).map BackendDescriptor.addr = some "h:1")) fresh
      [.tick (.ok [.new "a" "h:1"]) (.failsAt 1), .tick (.ok [.new "a" "h:2"]) (.failsAt 1)] =
        true := by decide
  obtain ⟨s₁, hrun₁, hok⟩ := exists_run_of_ends hends₁
  obtain ⟨s₁', hstep₁, hret⟩ := run_cons_eq_ok.mp hrun₁
  cases hret
  obtain ⟨s₂, hrun₂, hs₂⟩ := exists_run_of_ends hends₂
  obtain ⟨hb, hid, haddr⟩ := of_decide_eq_true hs₂
  obtain ⟨s₁', hstep₁', hrun₂⟩ := run_cons_eq_ok.mp hrun₂
  cases hstep₁.symm.trans hstep₁'
  obtain ⟨s₂', hstep₂, hret⟩ := run_cons_eq_ok.mp hrun₂
  cases hret
  refine ⟨s₁, s₂, hstep₁, hstep₂, by decide, hok, hid, haddr, fun hfollows => ?_⟩
  obtain ⟨d, hd, -, horigin⟩ := hfollows 1 _ _ hb hid
  rw [horigin, List.mem_singleton.mp hd] at haddr
  exact absurd haddr (by decide)

end Discover

end RotaLb
