import Mathlib.Data.List.ReduceOption
import RotaLb.Discovery
import RotaLb.IndexSafety

/-!
# What a Reconciliation Does

The two loops of `Discover::reconcile`, from any pool: the rows of the three vectors whose id is
listed, and those without an id, stay in place, and the backends made for the new descriptors
follow them. `HasRows w rows` reads the vectors of a balancer as one table; `Reconciled.From`
is the full effect of a reconciliation on that table, whether the factory fails or not.

## Main results

* `reconcile_from`: **a reconciliation always returns, and its effect on the table**.
* `reconcile_run`: a reconciliation is a run of the balancer's own events.
* `in_sync`: **discovery keeps the pool in sync**, over every run of ticks and of
  events of the balancer.
* `reconcile_idempotent_recovers`: **reconciling again changes nothing, and a reconciliation that
  succeeds after failed ones ends where a single one does**.
-/

namespace RotaLb

open Rust StepSystem

variable {σ : Type}

/-! ### The table -/

/-- One slot of the three vectors. -/
structure Row where
  backend : Backend
  id : Option String
  metrics : TunnelMetrics
  deriving DecidableEq

/-- The row stays when these ids are discovered: it has no id, or a listed one. -/
def Row.listed (discovered : List String) (row : Row) : Bool := row.id.all (· ∈ discovered)

namespace World

/-- The three vectors of the balancer are the columns of the rows. -/
structure HasRows (w : World σ) (rows : List Row) : Prop where
  backends : w.lb.backends = rows.map Row.backend
  ids : w.lb.ids = rows.map Row.id
  metrics : w.lb.metrics = rows.map Row.metrics

variable {w w' : World σ} {rows : List Row}

/-- Vectors of one length are the columns of a table. -/
theorem Sync.hasRows (h : Sync w) : ∃ rows, HasRows w rows := by
  obtain ⟨hb, hi, hm⟩ := h.length
  have hlen : (w.lb.ids.zip w.lb.metrics).length = w.lb.backends.length := by
    rw [List.length_zip]
    omega
  refine ⟨(w.lb.backends.zip (w.lb.ids.zip w.lb.metrics)).map fun x => ⟨x.1, x.2.1, x.2.2⟩, ?_⟩
  have hsnd : (w.lb.backends.zip (w.lb.ids.zip w.lb.metrics)).map Prod.snd =
      w.lb.ids.zip w.lb.metrics := List.map_snd_zip hlen.le
  refine ⟨?_, ?_, ?_⟩
  · rw [List.map_map]
    exact (List.map_fst_zip hlen.ge).symm
  · rw [List.map_map]
    change w.lb.ids = List.map (Prod.fst ∘ Prod.snd) _
    rw [← List.map_map, hsnd, List.map_fst_zip (by omega)]
  · rw [List.map_map]
    change w.lb.metrics = List.map (Prod.snd ∘ Prod.snd) _
    rw [← List.map_map, hsnd, List.map_snd_zip (by omega)]

/-- The tags are the column of the backends' tags. -/
theorem HasRows.tags (h : HasRows w rows) :
    w.tags = rows.map fun row => row.backend.tag := by
  rw [World.tags, h.backends, List.map_map]
  rfl

/-- The ids of the rows that have one. -/
theorem HasRows.reduceOption (h : HasRows w rows) :
    w.lb.ids.reduceOption = rows.filterMap Row.id := by
  rw [h.ids, List.reduceOption, List.filterMap_map]
  rfl

/-- A new backend is one more row. -/
theorem HasRows.added (h : HasRows w rows) (id : Option String) (ptr : ℕ) :
    HasRows (w.added id (w.lb.pushBackend id ⟨w.fresh, ptr⟩))
      (rows ++ [⟨⟨w.fresh, ptr⟩, id, default⟩]) := by
  refine ⟨?_, ?_, ?_⟩
  · simp [World.added, LoadBalancer.pushBackend, h.backends]
  · simp [World.added, LoadBalancer.pushBackend, h.ids]
  · simp [World.added, LoadBalancer.pushBackend, h.metrics]

/-- A removal takes out one row. -/
theorem HasRows.afterLeave (h : HasRows w rows) (index : ℕ) (b : Backend) :
    HasRows (w.afterLeave index b) (rows.eraseIdx index) := by
  refine ⟨?_, ?_, ?_⟩
  · simp [World.afterLeave, h.backends, List.eraseIdx_map]
  · simp [World.afterLeave, h.ids, List.eraseIdx_map]
  · simp [World.afterLeave, h.metrics, List.eraseIdx_map]

section Loops

variable [BalanceStrategy σ] (env : Env)

/-- A backend is added while no dial is in progress. -/
theorem step_addBackendWithId (hd : w.dials = []) (id : String) (ptr : ℕ) :
    w.step env (.addBackendWithId id ptr) =
      .ok (w.added (some id) (w.lb.pushBackend (some id) ⟨w.fresh, ptr⟩)) := by
  rw [step, exclusive, hd]
  rfl

/-- A removal by id takes out the first row with that id, if any. -/
theorem step_removeBackendById (hd : w.dials = []) (h : HasRows w rows) (id : String) :
    ∃ w', w.step env (.removeBackendById id) = .ok w' ∧
      HasRows w' (rows.eraseP fun row => row.id = some id) ∧ w'.dials = [] ∧
      w'.fresh = w.fresh := by
  have hfind : w.lb.ids.findIdx? (· = some id) =
      rows.findIdx? fun row => row.id = some id := by
    rw [h.ids, List.findIdx?_map]
    rfl
  have hexcl : ∀ r : Except Fault (World σ), w.exclusive r = r := by
    intro r
    rw [exclusive, hd]
    rfl
  rw [step, hexcl, LoadBalancer.removeBackendById, hfind, List.eraseP_eq_eraseIdx]
  cases hi : rows.findIdx? fun row => row.id = some id with
  | none => exact ⟨w, rfl, h, hd, rfl⟩
  | some i =>
      obtain ⟨hlt, -⟩ := List.findIdx?_eq_some_iff_getElem.mp hi
      have hlen : w.lb.backends.length = rows.length := by rw [h.backends, List.length_map]
      have hids : w.lb.ids.length = w.lb.backends.length := by rw [h.ids, h.backends]; simp
      have hmetrics : w.lb.metrics.length = w.lb.backends.length := by
        rw [h.metrics, h.backends]
        simp
      obtain ⟨done, hdone⟩ := removeBackend_ok hids hmetrics i
      rcases removeBackend_cases hdone with ⟨-, hge⟩ | ⟨b, -, rfl⟩
      · omega
      · exact ⟨w.afterLeave i b, by simp only [hdone]; rfl, h.afterLeave i b, hd, rfl⟩

/-- **The removing loop** goes through the ids it is given. -/
theorem removeMissing_rows (hd : w.dials = []) (h : HasRows w rows) (discovered ids : List String) :
    ∃ w', w.removeMissing env discovered ids = .ok w' ∧
      HasRows w' (Keyed.eraseKeys Row.id (· ∈ discovered) ids rows) ∧ w'.dials = [] ∧
      w'.fresh = w.fresh := by
  induction ids generalizing w rows with
  | nil => exact ⟨w, rfl, h, hd, rfl⟩
  | cons id ids ih =>
      by_cases hid : id ∈ discovered
      · obtain ⟨w', hw', hrows, hd', hfresh⟩ := ih hd h
        refine ⟨w', ?_, ?_, hd', hfresh⟩
        · rw [removeMissing, if_pos hid]
          exact hw'
        · simpa [Keyed.eraseKeys, hid] using hrows
      · obtain ⟨w₁, hw₁, hrows₁, hd₁, hfresh₁⟩ := step_removeBackendById env hd h id
        obtain ⟨w', hw', hrows, hd', hfresh⟩ := ih hd₁ hrows₁
        refine ⟨w', ?_, ?_, hd', hfresh.trans hfresh₁⟩
        · rw [removeMissing, if_neg hid, hw₁]
          exact hw'
        · simpa [Keyed.eraseKeys, hid] using hrows

end Loops

end World

/-- The descriptors to create backends for: those whose id is not among the current ones. -/
def wanted (current : List (Option String)) (ds : List BackendDescriptor) :
    List BackendDescriptor :=
  ds.filter fun d => !current.contains (some d.id)

/-- Those of them that the factory creates, up to its first failure. -/
def accepted (create : DescriptorFactory) : ℕ → List BackendDescriptor → List BackendDescriptor
  | _, [] => []
  | n, d :: ds =>
    match create n d with
    | .ok _ => d :: accepted create (n + 1) ds
    | .error _ => []

/-- A factory that fails at its call number `k` only. -/
def DescriptorFactory.failsAt (k : ℕ) : DescriptorFactory := fun n _ =>
  if n = k then .error (.factory "down") else .ok n

/-- What the factory creates are the first ones of the list. -/
theorem accepted_isPrefix (create : DescriptorFactory) (n : ℕ) (ds : List BackendDescriptor) :
    accepted create n ds <+: ds := by
  induction ds generalizing n with
  | nil => exact List.prefix_rfl
  | cons d ds ih =>
      unfold accepted
      split
      · exact List.cons_prefix_cons.mpr ⟨rfl, ih (n + 1)⟩
      · exact List.nil_prefix

/-- The effect of the adding loop on a table: the backends created for the wanted descriptors,
with new tags and default metrics, follow the rows that were there. -/
structure Reconciled.Adds (r : Reconciled σ) (w : World σ) (rows : List Row)
    (create : DescriptorFactory) (n : ℕ) (want : List BackendDescriptor) : Prop where
  rows : ∃ added, r.world.HasRows (rows ++ added) ∧
    added.map Row.id = r.created.map (fun c => some c.2.id) ∧
    added.map (fun row => row.backend.tag) = r.created.map Prod.fst ∧
    ∀ row ∈ added, row.metrics = default
  descriptors : r.created.map Prod.snd = accepted create n want
  tags : r.created.map Prod.fst = List.range' w.fresh r.created.length
  result : r.result = .ok () ↔ accepted create n want = want
  asked : r.asked = want.take (r.created.length + 1)
  dials : r.world.dials = []

/-- The backends that were created have new tags. -/
theorem Reconciled.Adds.fresh_le {r : Reconciled σ} {w : World σ} {rows : List Row}
    {create : DescriptorFactory} {n : ℕ} {want : List BackendDescriptor}
    (h : r.Adds w rows create n want) {t : ℕ} (ht : t ∈ r.created.map Prod.fst) : w.fresh ≤ t := by
  rw [h.tags] at ht
  exact (List.mem_range'_1.mp ht).1

namespace World

variable [BalanceStrategy σ] (env : Env) {w : World σ} {rows : List Row}

/-- **The adding loop.** -/
theorem addMissing_adds (hd : w.dials = []) (h : HasRows w rows) (current : List (Option String))
    (create : DescriptorFactory) (ds : List BackendDescriptor) (n : ℕ) :
    ∃ r, w.addMissing env current create ds n = .ok r ∧
      r.Adds w rows create n (wanted current ds) := by
  induction ds generalizing w rows n with
  | nil =>
      refine ⟨⟨w, .ok (), [], []⟩, rfl, ⟨[], ?_, rfl, rfl, by simp⟩, rfl, rfl, by simp [wanted,
        accepted], rfl, hd⟩
      rwa [List.append_nil]
  | cons d ds ih =>
      by_cases hcur : some d.id ∈ current
      · obtain ⟨r, hr, hadds⟩ := ih hd h n
        refine ⟨r, ?_, ?_⟩
        · rw [addMissing, if_pos hcur]
          exact hr
        · rwa [wanted, List.filter_cons_of_neg (by simpa using hcur)]
      · have hwant : wanted current (d :: ds) = d :: wanted current ds :=
          List.filter_cons_of_pos (by simpa using hcur)
        rw [addMissing, if_neg hcur, hwant]
        cases hc : create n d with
        | error e =>
            refine ⟨⟨w, .error e, [d], []⟩, rfl, ⟨[], ?_, rfl, rfl, by simp⟩, ?_, rfl, ?_, rfl, hd⟩
            · rwa [List.append_nil]
            · simp [accepted, hc]
            · simp [accepted, hc]
        | ok ptr =>
            have hstep := step_addBackendWithId env hd d.id ptr
            obtain ⟨r, hr, hadds⟩ := ih (w := w.added (some d.id)
              (w.lb.pushBackend (some d.id) ⟨w.fresh, ptr⟩)) hd (h.added (some d.id) ptr) (n + 1)
            obtain ⟨added, hrows, hids, htags, hdefault⟩ := hadds.rows
            refine ⟨{ r with asked := d :: r.asked, created := (w.fresh, d) :: r.created },
              bind_eq_ok.mpr ⟨_, hstep, bind_eq_ok.mpr ⟨r, hr, rfl⟩⟩,
              ⟨⟨⟨w.fresh, ptr⟩, some d.id, default⟩ :: added, ?_, ?_, ?_, ?_⟩, ?_, ?_, ?_, ?_,
              hadds.dials⟩
            · rwa [List.append_assoc] at hrows
            · simp [hids]
            · simp [htags]
            · exact List.forall_mem_cons.mpr ⟨rfl, hdefault⟩
            · simp [accepted, hc, hadds.descriptors]
            · simp [List.range'_succ, hadds.tags, World.added]
            · simp [accepted, hc, hadds.result]
            · simp [hadds.asked]

end World

/-- The effect of a reconciliation on a table: the rows without an id and those whose id is
listed stay, and the backends for the new descriptors follow. -/
def Reconciled.From (r : Reconciled σ) (w : World σ) (rows : List Row)
    (ds : List BackendDescriptor) (create : DescriptorFactory) : Prop :=
  r.Adds w (rows.filter (Row.listed (ds.map BackendDescriptor.id))) create 0 (wanted w.lb.ids ds)

namespace World

variable [BalanceStrategy σ] {env : Env} {w : World σ} {rows : List Row}
  {ds : List BackendDescriptor} {create : DescriptorFactory} {r : Reconciled σ}

variable (env) in
/-- **A reconciliation always returns, and its effect on the table.** -/
theorem reconcile_from (hd : w.dials = []) (h : HasRows w rows) (ds : List BackendDescriptor)
    (create : DescriptorFactory) :
    ∃ r, w.reconcile env ds create = .ok r ∧ r.From w rows ds create := by
  obtain ⟨w₁, hw₁, hrows, hd₁, hfresh⟩ := removeMissing_rows env hd h
    (ds.map BackendDescriptor.id) w.lb.ids.reduceOption
  rw [h.reduceOption, Keyed.eraseKeys_filterMap] at hrows
  obtain ⟨r, hr, hadds⟩ := addMissing_adds env hd₁ hrows w.lb.ids create ds 0
  refine ⟨r, bind_eq_ok.mpr ⟨w₁, hw₁, hr⟩, ?_⟩
  exact ⟨hadds.rows, hadds.descriptors, hfresh ▸ hadds.tags, hadds.result, hadds.asked, hadds.dials⟩

/-- The reconciliation returns `Ok`. -/
def reconcilesOk (env : Env) (ds : List BackendDescriptor) (create : DescriptorFactory)
    (w : World σ) : Bool :=
  match w.reconcile env ds create with
  | .ok r => r.result.isOk
  | .error _ => false

theorem exists_of_reconcilesOk (h : w.reconcilesOk env ds create = true) :
    ∃ r, w.reconcile env ds create = .ok r ∧ r.result = .ok () := by
  unfold reconcilesOk at h
  split at h
  · rename_i r hr
    refine ⟨r, hr, ?_⟩
    cases hres : r.result with
    | ok u => rfl
    | error e => simp [hres, Except.isOk, Except.toBool] at h
  · cases h

/-- The effect of a reconciliation that returned. -/
theorem from_of_reconcile (hd : w.dials = []) (h : HasRows w rows)
    (hr : w.reconcile env ds create = .ok r) : r.From w rows ds create := by
  obtain ⟨r', hr', hfrom⟩ := reconcile_from env hd h ds create
  cases hr.symm.trans hr'
  exact hfrom

/-! ### A reconciliation as a run -/

/-- The removing loop runs removals. -/
theorem removeMissing_run {discovered ids : List String} {w w' : World σ}
    (h : w.removeMissing env discovered ids = .ok w') : ∃ es, run (step env) w es = .ok w' := by
  induction ids generalizing w with
  | nil =>
      cases h
      exact ⟨[], rfl⟩
  | cons id ids ih =>
      rw [removeMissing] at h
      split at h
      · exact ih h
      · obtain ⟨w₁, hw₁, h⟩ := bind_eq_ok.mp h
        obtain ⟨es, hes⟩ := ih h
        exact ⟨_ :: es, run_cons_eq_ok.mpr ⟨w₁, hw₁, hes⟩⟩

/-- The adding loop runs additions. -/
theorem addMissing_run {current : List (Option String)} {ds : List BackendDescriptor} {n : ℕ}
    {w : World σ} {r : Reconciled σ} (h : w.addMissing env current create ds n = .ok r) :
    ∃ es, run (step env) w es = .ok r.world := by
  induction ds generalizing w n r with
  | nil =>
      cases h
      exact ⟨[], rfl⟩
  | cons d ds ih =>
      unfold addMissing at h
      split at h
      · exact ih h
      · split at h
        · cases h
          exact ⟨[], rfl⟩
        · obtain ⟨w₁, hw₁, h⟩ := bind_eq_ok.mp h
          obtain ⟨r₁, hr₁, h⟩ := bind_eq_ok.mp h
          cases h
          obtain ⟨es, hes⟩ := ih hr₁
          exact ⟨_ :: es, run_cons_eq_ok.mpr ⟨w₁, hw₁, hes⟩⟩

/-- **A reconciliation is a run of the balancer's own events.** -/
theorem reconcile_run (h : w.reconcile env ds create = .ok r) :
    ∃ es, run (step env) w es = .ok r.world := by
  obtain ⟨w₁, hw₁, hr⟩ := bind_eq_ok.mp h
  obtain ⟨es₁, hes₁⟩ := removeMissing_run hw₁
  obtain ⟨es₂, hes₂⟩ := addMissing_run hr
  exact ⟨es₁ ++ es₂, run_append.mpr ⟨w₁, hes₁, hes₂⟩⟩

end World

/-! ### Ids -/

/-- The ids of the rows that a reconciliation keeps. -/
def keptIds (rows : List Row) (ds : List BackendDescriptor) : List (Option String) :=
  (rows.filter (Row.listed (ds.map BackendDescriptor.id))).map Row.id

/-- A tracked id is kept if it is listed. -/
theorem some_mem_keptIds {rows : List Row} {ds : List BackendDescriptor} {id : String} :
    some id ∈ keptIds rows ds ↔
      some id ∈ rows.map Row.id ∧ id ∈ ds.map BackendDescriptor.id := by
  constructor
  · intro h
    obtain ⟨row, hrow, hid⟩ := List.mem_map.mp h
    obtain ⟨hmem, hlisted⟩ := List.mem_filter.mp hrow
    rw [Row.listed, hid] at hlisted
    exact ⟨List.mem_map.mpr ⟨row, hmem, hid⟩, of_decide_eq_true hlisted⟩
  · rintro ⟨hmem, hlisted⟩
    obtain ⟨row, hrow, hid⟩ := List.mem_map.mp hmem
    refine List.mem_map.mpr ⟨row, List.mem_filter.mpr ⟨hrow, ?_⟩, hid⟩
    rw [Row.listed, hid]
    exact decide_eq_true hlisted

/-- If every tracked id is listed, every row is kept. -/
theorem keptIds_of_subset {rows : List Row} {ds : List BackendDescriptor}
    (h : ∀ id, some id ∈ rows.map Row.id → id ∈ ds.map BackendDescriptor.id) :
    keptIds rows ds = rows.map Row.id := by
  rw [keptIds, List.filter_eq_self.mpr]
  intro row hrow
  unfold Row.listed
  cases hid : row.id with
  | none => rfl
  | some id => exact decide_eq_true (h id (hid ▸ List.mem_map_of_mem hrow))

namespace Reconciled.From

variable {r : Reconciled σ} {w : World σ} {rows : List Row} {ds : List BackendDescriptor}
  {create : DescriptorFactory}

/-- The ids after a reconciliation. -/
theorem ids (h : r.From w rows ds create) :
    r.world.lb.ids = keptIds rows ds ++
      (accepted create 0 (wanted w.lb.ids ds)).map fun d => some d.id := by
  obtain ⟨added, hrows, hids, -, -⟩ := h.rows
  rw [hrows.ids, List.map_append, hids, ← h.descriptors, List.map_map]
  rfl

/-- The ids after a reconciliation that succeeded. -/
theorem ids_of_ok (h : r.From w rows ds create) (hok : r.result = .ok ()) :
    r.world.lb.ids = keptIds rows ds ++ (wanted w.lb.ids ds).map fun d => some d.id := by
  rw [h.ids, h.result.mp hok]

/-- After a reconciliation that succeeded exactly the listed ids are tracked. -/
theorem mem_ids_of_ok (h : r.From w rows ds create) (hrows : w.HasRows rows)
    (hok : r.result = .ok ()) {id : String} :
    some id ∈ r.world.lb.ids ↔ id ∈ ds.map BackendDescriptor.id := by
  rw [h.ids_of_ok hok, List.mem_append, some_mem_keptIds, ← hrows.ids]
  constructor
  · rintro (⟨-, hmem⟩ | hmem)
    · exact hmem
    · obtain ⟨d, hd, hid⟩ := List.mem_map.mp hmem
      rw [← Option.some.inj hid]
      exact List.mem_map_of_mem (List.mem_of_mem_filter hd)
  · intro hmem
    by_cases hcur : some id ∈ w.lb.ids
    · exact .inl ⟨hcur, hmem⟩
    · obtain ⟨d, hd, rfl⟩ := List.mem_map.mp hmem
      exact .inr (List.mem_map.mpr ⟨d, List.mem_filter.mpr ⟨hd, by simpa using hcur⟩, rfl⟩)

end Reconciled.From

/-! ### Reconciling again -/

namespace World

variable {w w₁ : World σ} {rows : List Row} {ds : List BackendDescriptor}

section Again

variable [BalanceStrategy σ] {env : Env} {create create' : DescriptorFactory} {r : Reconciled σ}

/-- Nothing is removed if every id is listed. -/
theorem removeMissing_of_subset {discovered ids : List String} (h : ids ⊆ discovered) :
    w.removeMissing env discovered ids = .ok w := by
  induction ids with
  | nil => rfl
  | cons id ids ih =>
      obtain ⟨hid, hids⟩ := List.cons_subset.mp h
      rw [removeMissing, if_pos hid]
      exact ih hids

/-- Nothing is created if no descriptor is wanted. -/
theorem addMissing_of_subset {current : List (Option String)} {n : ℕ}
    (h : ∀ d ∈ ds, some d.id ∈ current) :
    w.addMissing env current create ds n = .ok ⟨w, .ok (), [], []⟩ := by
  induction ds with
  | nil => rfl
  | cons d ds ih =>
      obtain ⟨hd, hds⟩ := List.forall_mem_cons.mp h
      rw [addMissing, if_pos hd]
      exact ih hds

/-- **Reconciling again calls no factory and changes nothing.** -/
theorem reconcile_again (hd : w.dials = []) (h : HasRows w rows)
    (hr : w.reconcile env ds create = .ok r) (hok : r.result = .ok ()) :
    r.world.reconcile env ds create' = .ok ⟨r.world, .ok (), [], []⟩ := by
  have hmem : ∀ id, some id ∈ r.world.lb.ids ↔ id ∈ ds.map BackendDescriptor.id :=
    fun id => (from_of_reconcile hd h hr).mem_ids_of_ok h hok
  have hremove : r.world.removeMissing env (ds.map BackendDescriptor.id)
      r.world.lb.ids.reduceOption = .ok r.world := by
    refine removeMissing_of_subset fun id hid => (hmem id).mp ?_
    exact List.reduceOption_mem_iff.mp hid
  have hadd : r.world.addMissing env r.world.lb.ids create' ds 0 = .ok ⟨r.world, .ok (), [], []⟩ :=
    addMissing_of_subset fun d hd => (hmem d.id).mpr (List.mem_map_of_mem hd)
  exact bind_eq_ok.mpr ⟨r.world, hremove, hadd⟩

end Again

/-- After failed reconciliations the kept ids are followed by the first of the wanted ones. -/
def Partway (w : World σ) (rows : List Row) (ds : List BackendDescriptor) (n : ℕ) (w₁ : World σ) :
    Prop :=
  w₁.lb.ids = keptIds rows ds ++ ((wanted w.lb.ids ds).take n).map fun d => some d.id

/-- Every id that is tracked then is listed. -/
theorem Partway.listed {n : ℕ} (h : Partway w rows ds n w₁) {id : String}
    (hid : some id ∈ w₁.lb.ids) : id ∈ ds.map BackendDescriptor.id := by
  rw [h, List.mem_append, some_mem_keptIds] at hid
  rcases hid with ⟨-, hmem⟩ | hmem
  · exact hmem
  · obtain ⟨d, hd, he⟩ := List.mem_map.mp hmem
    rw [← Option.some.inj he]
    exact List.mem_map_of_mem (List.mem_of_mem_filter (List.mem_of_mem_take hd))

/-- What is still wanted then are the others, if no id is listed twice. -/
theorem Partway.wanted {n : ℕ} (h : Partway w rows ds n w₁) (hrows : HasRows w rows)
    (hnd : (ds.map BackendDescriptor.id).Nodup) :
    wanted w₁.lb.ids ds = (RotaLb.wanted w.lb.ids ds).drop n := by
  set want := RotaLb.wanted w.lb.ids ds with hwant
  have hnd' : (want.map BackendDescriptor.id).Nodup := hnd.sublist (List.filter_sublist.map _)
  -- a listed id is missing now if it was missing before and is not among those created since
  have hfilter : RotaLb.wanted w₁.lb.ids ds =
      want.filter fun d => d.id ∉ (want.take n).map BackendDescriptor.id := by
    refine Eq.trans (List.filter_congr fun d hd => ?_) List.filter_filter.symm
    have hmem : some d.id ∈ w₁.lb.ids ↔
        some d.id ∈ w.lb.ids ∨ d.id ∈ (want.take n).map BackendDescriptor.id := by
      rw [h, List.mem_append, some_mem_keptIds, ← hrows.ids,
        and_iff_left (List.mem_map_of_mem hd)]
      simp only [List.mem_map, Option.some.injEq, hwant]
    rw [Bool.eq_iff_iff]
    simp only [Bool.not_eq_true', List.contains_eq_mem, decide_eq_false_iff_not, hmem,
      Bool.and_eq_true, decide_eq_true_eq]
    tauto
  rw [← List.take_append_drop n want] at hnd'
  have hdrop := Keyed.filter_not_mem_map hnd'
  rwa [List.take_append_drop, ← hfilter] at hdrop

/-- **One more reconciliation from there**: some more of the wanted ids, all of them if it
succeeds. -/
theorem Partway.reconciled {n : ℕ} {rows₁ : List Row} {create : DescriptorFactory}
    {r : Reconciled σ} (h : Partway w rows ds n w₁) (hrows : HasRows w rows)
    (hnd : (ds.map BackendDescriptor.id).Nodup) (hrows₁ : HasRows w₁ rows₁)
    (hfrom : r.From w₁ rows₁ ds create) :
    (∃ m, Partway w rows ds m r.world) ∧
      (r.result = .ok () → r.world.lb.ids =
        keptIds rows ds ++ (RotaLb.wanted w.lb.ids ds).map fun d => some d.id) := by
  have hkept : keptIds rows₁ ds =
      keptIds rows ds ++ ((RotaLb.wanted w.lb.ids ds).take n).map fun d => some d.id := by
    rw [keptIds_of_subset fun id hid => h.listed (hrows₁.ids ▸ hid), ← hrows₁.ids, h]
  have hids := hfrom.ids
  rw [h.wanted hrows hnd, hkept, List.append_assoc, ← List.map_append] at hids
  constructor
  · have haccepted := List.prefix_iff_eq_take.mp
      (accepted_isPrefix create 0 ((RotaLb.wanted w.lb.ids ds).drop n))
    refine ⟨n + (accepted create 0 ((RotaLb.wanted w.lb.ids ds).drop n)).length, ?_⟩
    rw [Partway, hids, List.take_add, ← haccepted]
  · intro hok
    have hall := hfrom.result.mp hok
    rw [h.wanted hrows hnd] at hall
    rw [hids, hall, List.take_append_drop]

section Recovery

variable [BalanceStrategy σ] {env : Env}

/-- One reconciliation with a fixed list, whatever it returns. -/
def reconcileStep (env : Env) (ds : List BackendDescriptor) (w : World σ)
    (create : DescriptorFactory) : Except Fault (World σ) := do
  return (← w.reconcile env ds create).world

/-- After any number of reconciliations with one list: nothing has happened yet, or the ids
stand partway. -/
theorem run_reconcileStep (hd : w.dials = []) (hrows : HasRows w rows)
    {creates : List DescriptorFactory} (hrun : run (reconcileStep env ds) w creates = .ok w₁) :
    w₁.dials = [] ∧ ∃ rows₁, HasRows w₁ rows₁ ∧ ((ds.map BackendDescriptor.id).Nodup →
      (w₁ = w ∧ rows₁ = rows) ∨ ∃ n, Partway w rows ds n w₁) := by
  refine run_invariant (I := fun w₁ => w₁.dials = [] ∧ ∃ rows₁, HasRows w₁ rows₁ ∧
    ((ds.map BackendDescriptor.id).Nodup →
      (w₁ = w ∧ rows₁ = rows) ∨ ∃ n, Partway w rows ds n w₁)) ?_
    ⟨hd, rows, hrows, fun _ => .inl ⟨rfl, rfl⟩⟩ hrun
  rintro w₁ create w₂ ⟨hd₁, rows₁, hrows₁, hpart⟩ hstep
  obtain ⟨r, hr, hret⟩ := bind_eq_ok.mp hstep
  cases hret
  have hfrom := from_of_reconcile hd₁ hrows₁ hr
  obtain ⟨added, hrows₂, -⟩ := hfrom.rows
  refine ⟨hfrom.dials, _, hrows₂, fun hnd => .inr ?_⟩
  rcases hpart hnd with ⟨rfl, rfl⟩ | ⟨n, hn⟩
  · have haccepted := List.prefix_iff_eq_take.mp
      (accepted_isPrefix create 0 (RotaLb.wanted w₁.lb.ids ds))
    refine ⟨(accepted create 0 (RotaLb.wanted w₁.lb.ids ds)).length, ?_⟩
    rw [Partway, hfrom.ids, ← haccepted]
  · exact (hn.reconciled hrows hnd hrows₁ hfrom).1

variable (env) in
/-- **Reconciling is idempotent and recovers from failures.** From every pool, with every list:

* after a reconciliation that succeeded, another one calls the factory not once and leaves
  the balancer as it is;
* after any number of reconciliations, failed ones at any position included, one that succeeds
  tracks the ids that a single one from the original pool tracks, in the same order if no id
  is listed twice. -/
theorem reconcile_idempotent_recovers (hd : w.dials = []) (hrows : HasRows w rows)
    (ds : List BackendDescriptor) :
    (∀ create create' r, w.reconcile env ds create = .ok r → r.result = .ok () →
      r.world.reconcile env ds create' = .ok ⟨r.world, .ok (), [], []⟩) ∧
    (∀ creates w₁ create create' r r', run (reconcileStep env ds) w creates = .ok w₁ →
      w₁.reconcile env ds create = .ok r → r.result = .ok () →
      w.reconcile env ds create' = .ok r' → r'.result = .ok () →
      (∀ id, some id ∈ r.world.lb.ids ↔ some id ∈ r'.world.lb.ids) ∧
      ((ds.map BackendDescriptor.id).Nodup → r.world.lb.ids = r'.world.lb.ids)) := by
  refine ⟨fun create create' r hr hok => reconcile_again hd hrows hr hok, ?_⟩
  intro creates w₁ create create' r r' hrun hr hok hr' hok'
  obtain ⟨hd₁, rows₁, hrows₁, hpart⟩ := run_reconcileStep hd hrows hrun
  have hfrom := from_of_reconcile hd₁ hrows₁ hr
  have hfrom' := from_of_reconcile hd hrows hr'
  refine ⟨fun id => ?_, fun hnd => ?_⟩
  · rw [hfrom.mem_ids_of_ok hrows₁ hok, hfrom'.mem_ids_of_ok hrows hok']
  · rw [hfrom'.ids_of_ok hok']
    rcases hpart hnd with ⟨rfl, rfl⟩ | ⟨n, hn⟩
    · exact hfrom.ids_of_ok hok
    · exact (hn.reconciled hrows hnd hrows₁ hfrom).2 hok

/-- Three new backends. -/
def xyz : List BackendDescriptor := [.new "x" "h:1", .new "y" "h:2", .new "z" "h:3"]

/-- The second call of the factory fails at first, then its first one: only "x" is tracked after
both. A third reconciliation succeeds and tracks what a single one would have. -/
theorem reconcile_recovers_twice :
    ∃ r₁ r₂ r r' : Reconciled Builtin,
      (ofSize 1 (Builtin.roundRobin ⟨0⟩)).reconcile Env.plain xyz (.failsAt 1) = .ok r₁ ∧
      r₁.result = .error (.factory "down") ∧ r₁.world.lb.ids = [none, some "x"] ∧
      r₁.world.reconcile Env.plain xyz (.failsAt 0) = .ok r₂ ∧
      r₂.result = .error (.factory "down") ∧ r₂.world.lb.ids = [none, some "x"] ∧
      r₂.world.reconcile Env.plain xyz (.failsAt 3) = .ok r ∧ r.result = .ok () ∧
      (ofSize 1 (Builtin.roundRobin ⟨0⟩)).reconcile Env.plain xyz (.failsAt 3) = .ok r' ∧
      r'.world.lb.ids = [none, some "x", some "y", some "z"] ∧
      r.world.lb.ids = r'.world.lb.ids ∧
      r'.world.reconcile Env.plain xyz (.failsAt 0) = .ok ⟨r'.world, .ok (), [], []⟩ := by
  have hrows : HasRows (ofSize 1 (Builtin.roundRobin ⟨0⟩)) [⟨⟨0, 0⟩, none, default⟩] :=
    ⟨rfl, rfl, rfl⟩
  obtain ⟨hagain, hrecover⟩ := reconcile_idempotent_recovers Env.plain rfl hrows xyz
  refine ⟨_, _, _, _, rfl, rfl, rfl, rfl, rfl, rfl, rfl, rfl, rfl, rfl, ?_, ?_⟩
  · exact (hrecover [.failsAt 1, .failsAt 0] _ (.failsAt 3) (.failsAt 3) _ _ rfl rfl rfl rfl
      rfl).2 (by decide)
  · exact hagain (.failsAt 3) _ _ rfl rfl

end Recovery

end World

/-! ### Runs of ticks -/

namespace Discover

variable [BalanceStrategy σ] {env : Env} {s s' : Discover σ}

/-- A tick that found descriptors reconciled, with no dial in progress. -/
theorem step_tick_eq_ok {ds : List BackendDescriptor} {create : DescriptorFactory}
    (h : s.step env (.tick (.ok ds) create) = .ok s') :
    s.world.dials = [] ∧ ∃ r, s.world.reconcile env ds create = .ok r ∧ s' = s.reconciled r := by
  rw [step] at h
  split at h
  · obtain ⟨r, hr, hs'⟩ := bind_eq_ok.mp h
    cases hs'
    exact ⟨List.isEmpty_iff.mp ‹_›, r, hr, rfl⟩
  · cases h

/-- Every event is a run of the balancer's own events. -/
theorem step_run {e : DiscoverEvent σ} (h : s.step env e = .ok s') :
    ∃ es, run (World.step env) s.world es = .ok s'.world := by
  cases e with
  | balancer e =>
      obtain ⟨w, hw, hs'⟩ := bind_eq_ok.mp h
      cases hs'
      exact ⟨[e], run_cons_eq_ok.mpr ⟨w, hw, rfl⟩⟩
  | tick found create =>
      cases found with
      | error e =>
          cases h
          exact ⟨[], rfl⟩
      | ok ds =>
          obtain ⟨-, r, hr, rfl⟩ := step_tick_eq_ok h
          exact World.reconcile_run hr

/-- The states of a `Discover` made around any balancer, after any ticks and any events of the
balancer. -/
def Running (env : Env) : Discover σ → Prop :=
  Reaches (step env) fun s => Reaches (World.step env) World.Initial s.world

/-- The balancer of a running `Discover` is in a reachable state. -/
theorem Running.world (h : Running env s) : Reaches (World.step env) World.Initial s.world :=
  h.invariant (fun _ hs => hs) fun _ _ _ hs hstep => by
    obtain ⟨es, hes⟩ := step_run hstep
    exact hs.run hes

/-- **Discovery keeps the pool in sync.** In every state reached by ticks and by events of the
balancer, from any pool: a tick whose `discover` failed changes nothing; a tick that
reconciled successfully tracks exactly the listed ids, keeps the rows without an id and those
whose id is listed, and appends the backends created for the other descriptors in their
order, with default metrics. -/
theorem in_sync (h : Running env s) :
    (∀ e create, s.step env (.tick (.error e) create) = .ok s) ∧
    ∃ rows, s.world.HasRows rows ∧ ∀ ds create s', s.step env (.tick (.ok ds) create) = .ok s' →
      ∃ r, s.world.reconcile env ds create = .ok r ∧ s' = s.reconciled r ∧
        (r.result = .ok () →
          (∀ id, some id ∈ s'.world.lb.ids ↔ id ∈ ds.map BackendDescriptor.id) ∧
          ∃ added, s'.world.HasRows
              (rows.filter (Row.listed (ds.map BackendDescriptor.id)) ++ added) ∧
            added.map Row.id = (wanted s.world.lb.ids ds).map (fun d => some d.id) ∧
            ∀ row ∈ added, row.metrics = default ∧ row.backend.tag ∉ s.world.tags) := by
  have hsync := World.reaches_sync h.world
  obtain ⟨rows, hrows⟩ := hsync.hasRows
  refine ⟨fun _ _ => rfl, rows, hrows, fun ds create s' hstep => ?_⟩
  obtain ⟨hd, r, hr, rfl⟩ := step_tick_eq_ok hstep
  have hfrom := World.from_of_reconcile hd hrows hr
  refine ⟨r, hr, rfl, fun hok => ⟨fun id => hfrom.mem_ids_of_ok hrows hok, ?_⟩⟩
  obtain ⟨added, hrows', hids, htags, hdefault⟩ := hfrom.rows
  refine ⟨added, hrows', ?_, fun row hrow => ⟨hdefault row hrow, fun hmem => ?_⟩⟩
  · rw [hids, ← hfrom.result.mp hok, ← hfrom.descriptors, List.map_map]
    rfl
  · have hnew : row.backend.tag ∈ List.range' s.world.fresh r.created.length := by
      rw [← hfrom.tags, ← htags]
      exact List.mem_map_of_mem hrow
    have hold := hsync.fresh _ hmem
    have hge := (List.mem_range'_1.mp hnew).1
    omega

/-- A pool of one backend without an id, one under "a" and two under "b". -/
def mixedPool : List (DiscoverEvent Builtin) :=
  [.balancer (.addBackendWithId "b" 7), .balancer (.addBackendWithId "a" 8),
    .balancer (.addBackendWithId "b" 9)]

/-- A tick that lists "c" and "a" tracks these two. -/
theorem in_sync_mixedPool :
    ∃ s s', run (step Env.plain) ⟨World.ofSize 1 (Builtin.roundRobin ⟨0⟩), fun _ => none⟩
        mixedPool = .ok s ∧
      s.step Env.plain (.tick (.ok [.new "c" "h:1", .new "a" "h:2"]) (.failsAt 1)) = .ok s' ∧
      ∀ id, some id ∈ s'.world.lb.ids ↔ id ∈ ["c", "a"] := by
  have hends : ends (step Env.plain)
      (fun s => s.world.dials.isEmpty && s.world.reconcilesOk Env.plain
        [.new "c" "h:1", .new "a" "h:2"] (.failsAt 1))
      ⟨World.ofSize 1 (Builtin.roundRobin ⟨0⟩), fun _ => none⟩ mixedPool = true := by decide
  obtain ⟨s, hrun, hs⟩ := exists_run_of_ends hends
  obtain ⟨hd, hok⟩ := Bool.and_eq_true_iff.mp hs
  obtain ⟨r, hr, hok⟩ := World.exists_of_reconcilesOk hok
  have hstep : s.step Env.plain (.tick (.ok [.new "c" "h:1", .new "a" "h:2"]) (.failsAt 1)) =
      .ok (s.reconciled r) := by
    rw [step, if_pos hd, hr]
    rfl
  have hstart : Reaches (World.step Env.plain) World.Initial
      (World.ofSize 1 (Builtin.roundRobin ⟨0⟩)) :=
    ⟨_, [], World.initial_ofSize Nat.one_pos _, rfl⟩
  have hrunning : Running Env.plain s := ⟨_, _, hstart, hrun⟩
  obtain ⟨-, rows, -, htick⟩ := in_sync hrunning
  obtain ⟨r', hr', -, hsync⟩ := htick _ _ _ hstep
  cases hr.symm.trans hr'
  exact ⟨s, _, hrun, hstep, (hsync hok).1⟩

end Discover

end RotaLb
