import RotaLb.Steps

/-!
# Slot `i` of the Three Vectors

`backends`, `ids` and `metrics` are parallel vectors, edited by every reconfiguration and
written back by raw index after a dial. `Sync` says that they are the columns of one table,
the pool that the log describes: the same backends in the same order, each with the id it
was added with, the round-trip time it was seeded with and its seeded number of dials plus
the dials routed to it since it entered.

## Main results

* `step_sync`: every event keeps the vectors in step with the pool.
* `slots_agree`: **in every reachable state slot `i` of the three vectors belongs to one
  and the same backend**.
-/

namespace RotaLb

open Rust StepSystem

variable {σ : Type}

/-! ### Construction -/

/-- The creation loop gives one backend and one seed per factory. -/
theorem LoadBalancer.createAll_length {fs : List (Except Error BackendOutput)} {bs : List Backend}
    {ms : List TunnelMetrics} (h : createAll fs = .ok (bs, ms)) :
    bs.length = fs.length ∧ ms.length = fs.length := by
  induction fs generalizing bs ms with
  | nil =>
      cases h
      exact ⟨rfl, rfl⟩
  | cons f fs ih =>
      obtain ⟨out, -, h⟩ := bind_eq_ok.mp h
      obtain ⟨⟨bs', ms'⟩, hrec, h⟩ := bind_eq_ok.mp h
      cases h
      obtain ⟨hb, hm⟩ := ih hrec
      exact ⟨congrArg (· + 1) hb, congrArg (· + 1) hm⟩

/-- What every constructor guarantees: seeded metrics and empty ids, one for each backend,
and the first generation. -/
structure Constructed (lb : LoadBalancer σ) (seeds : List TunnelMetrics) : Prop where
  metrics : lb.metrics = seeds
  ids : lb.ids = List.replicate lb.backends.length none
  length : lb.metrics.length = lb.backends.length
  generation : lb.generation = 0

/-- The checked constructor. -/
theorem newWithMetrics_constructed {bs : List Backend} {ms : List TunnelMetrics} {s : σ}
    {timeout : Option Duration} {policy : Option RetryPolicy} {lb : LoadBalancer σ}
    (h : LoadBalancer.newWithMetrics bs ms s timeout policy = .ok lb) : Constructed lb ms := by
  simp only [LoadBalancer.newWithMetrics] at h
  split at h
  · cases h
  · split at h
    · cases h
    · rename_i hlen
      cases h
      exact ⟨rfl, rfl, not_not.mp hlen, rfl⟩

/-- The metrics the builder seeds are the caller's, or else its own. -/
theorem seeds_eq {ms : Option (List TunnelMetrics)} {n : ℕ} {what : String}
    {fallback metrics : List TunnelMetrics}
    (h : LoadBalancerBuilder.seeds ms n what fallback = .ok metrics) :
    metrics = ms.getD fallback := by
  cases ms with
  | none =>
      cases h
      rfl
  | some ms =>
      unfold LoadBalancerBuilder.seeds at h
      simp only at h
      split at h
      · cases h
        rfl
      · cases h

/-- **Every constructor establishes the table.** -/
theorem Constructs.constructed {lb : LoadBalancer σ} {seeds : List TunnelMetrics}
    (h : Constructs lb seeds) : Constructed lb seeds := by
  cases h with
  | new h => exact newWithMetrics_constructed h
  | newWithMetrics h => exact newWithMetrics_constructed h
  | @fromFactories fs bs ms s lb hcreate h =>
      unfold LoadBalancer.fromFactories at h
      split at h
      · cases h
      · obtain ⟨⟨bs', ms'⟩, hc, h⟩ := bind_eq_ok.mp h
        rw [hcreate] at hc
        cases hc
        cases h
        obtain ⟨hb, hm⟩ := LoadBalancer.createAll_length hcreate
        exact ⟨rfl, rfl, hm.trans hb.symm, rfl⟩
  | @buildBackends b bs lb hbs h =>
      unfold LoadBalancerBuilder.build at h
      split at h
      · cases h
      · rw [hbs] at h
        split at h
        · rename_i hsome _
          cases hsome
          obtain ⟨ms, hms, h⟩ := bind_eq_ok.mp h
          rw [← seeds_eq hms]
          exact newWithMetrics_constructed h
        all_goals simp_all
  | @buildFactories b fs bs ms lb hfs hcreate h =>
      unfold LoadBalancerBuilder.build at h
      split at h
      · cases h
      · rw [hfs] at h
        split at h
        · simp_all
        · rename_i hsome
          cases hsome
          split at h
          · cases h
          · obtain ⟨⟨bs', ms'⟩, hc, h⟩ := bind_eq_ok.mp h
            rw [hcreate] at hc
            cases hc
            obtain ⟨ms', hms, h⟩ := bind_eq_ok.mp h
            rw [← seeds_eq hms]
            exact newWithMetrics_constructed h
        all_goals simp_all

/-! ### The table -/

/-- What the dials of a backend leave in its metrics, and what it was seeded with. -/
def TunnelMetrics.record (m : TunnelMetrics) : Option Duration × UInt64 := (m.rtt, m.totalDials)

/-- The record a member should have: its seed, and one more dial for each one routed. -/
def Member.record (x : Member) : Option Duration × UInt64 :=
  (x.seed.rtt, x.seed.totalDials + UInt64.ofNat x.routed)

/-- A backend that has just entered, without an id. -/
def Member.newcomer (seed : TunnelMetrics) (b : Backend) : Member := ⟨b.tag, none, seed, 0⟩

/-- The record of a member that was routed nothing yet. -/
theorem Member.record_newcomer (seed : TunnelMetrics) (b : Backend) :
    (newcomer seed b).record = seed.record := by
  simp [record, newcomer, TunnelMetrics.record]

/-- One more dial routed is one more dial counted. -/
theorem Member.record_routeOne (x : Member) :
    x.routeOne.record = Prod.map (fun rtt => rtt) (· + 1) x.record := by
  simp [record, routeOne, UInt64.ofNat_add, UInt64.add_assoc]

namespace World

/-- The three vectors are the columns of the pool, and no tag is used again. -/
structure Sync (w : World σ) : Prop where
  tags : w.tags = w.pool.tags
  ids : w.lb.ids = w.pool.members.map Member.id
  records : w.lb.metrics.map TunnelMetrics.record = w.pool.members.map Member.record
  fresh : ∀ t ∈ w.tags, t < w.fresh

/-- Events that record nothing about the pool. -/
theorem pool_eq_of_log {w w' : World σ} {es : List Entry} (hlog : w'.log = w.log ++ es)
    (hes : ∀ e ∈ es, e.onPool = false) : w'.pool = w.pool := by
  rw [pool, hlog, Pool.replay_append_of_not_onPool hes, pool]

/-- Events that leave the columns alone and record nothing about the pool. -/
theorem Sync.congr {w w' : World σ} (es : List Entry) (h : Sync w) (htags : w'.tags = w.tags)
    (hids : w'.lb.ids = w.lb.ids)
    (hrec : w'.lb.metrics.map TunnelMetrics.record = w.lb.metrics.map TunnelMetrics.record)
    (hfresh : w'.fresh = w.fresh) (hlog : w'.log = w.log ++ es)
    (hes : ∀ e ∈ es, e.onPool = false) : Sync w' := by
  have hpool : w'.pool = w.pool := pool_eq_of_log hlog hes
  exact ⟨by rw [htags, hpool, h.tags], by rw [hids, hpool, h.ids], by rw [hrec, hpool, h.records],
    by rw [htags, hfresh]; exact h.fresh⟩

/-- The pool has as many members as each vector has slots. -/
theorem Sync.length {w : World σ} (h : Sync w) :
    w.lb.backends.length = w.pool.members.length ∧ w.lb.ids.length = w.pool.members.length ∧
      w.lb.metrics.length = w.pool.members.length := by
  have htags := congrArg List.length h.tags
  have hids := congrArg List.length h.ids
  have hrec := congrArg List.length h.records
  simp only [World.tags, Pool.tags, List.length_map] at htags hids hrec
  exact ⟨htags, hids, hrec⟩

/-- No two slots hold the same backend. -/
theorem Sync.nodup {w : World σ} (h : Sync w) : w.tags.Nodup :=
  h.tags ▸ w.pool.nodup

/-- The member behind a slot. -/
theorem Sync.member {w : World σ} (h : Sync w) {i t : ℕ} (ht : w.tags[i]? = some t) :
    ∃ x, w.pool.members[i]? = some x ∧ x.tag = t := by
  rw [h.tags, Pool.tags, List.getElem?_map] at ht
  exact Option.map_eq_some_iff.mp ht

/-- The tag in a slot that holds a backend. -/
theorem tags_getElem? {w : World σ} {i : ℕ} {b : Backend} (hb : w.lb.backends[i]? = some b) :
    w.tags[i]? = some b.tag := by
  rw [tags, List.getElem?_map, hb, Option.map_some]

/-- The tags after an addition. -/
theorem tags_added {w : World σ} {id : Option String} {ptr : ℕ} :
    (w.added id (w.lb.pushBackend id ⟨w.fresh, ptr⟩)).tags = w.tags ++ [w.fresh] :=
  List.map_append

/-- The tags after a removal. -/
theorem tags_afterLeave {w : World σ} {index : ℕ} {b : Backend} :
    (w.afterLeave index b).tags = w.tags.eraseIdx index :=
  (List.eraseIdx_map Backend.tag w.lb.backends index).symm

/-- Consecutive tags are given out. -/
theorem map_tag_tagFrom (fresh : ℕ) (ptrs : List ℕ) :
    (tagFrom fresh ptrs).map Backend.tag = List.range' fresh ptrs.length := by
  induction ptrs generalizing fresh with
  | nil => rfl
  | cons ptr ptrs ih => rw [tagFrom, List.map_cons, ih, List.length_cons, List.range'_succ]

/-- As many backends enter as there are. -/
theorem length_tagFrom (fresh : ℕ) (ptrs : List ℕ) : (tagFrom fresh ptrs).length = ptrs.length := by
  have := congrArg List.length (map_tag_tagFrom fresh ptrs)
  simpa using this

/-- The tags after a replacement. -/
theorem tags_afterReplace {w : World σ} {ptrs : List ℕ} {strategy : Option σ} :
    (w.afterReplace ptrs strategy).tags = List.range' w.fresh ptrs.length :=
  map_tag_tagFrom w.fresh ptrs

/-! ### One event -/

/-- Rewriting metrics without touching the records. -/
theorem records_modify {ms : List TunnelMetrics} {i : ℕ} {f : TunnelMetrics → TunnelMetrics}
    (hf : ∀ m, (f m).record = m.record) :
    (ms.modify i f).map TunnelMetrics.record = ms.map TunnelMetrics.record :=
  Keyed.map_modify_of_absorb hf

/-- The second half of a drop records nothing about the pool. -/
theorem settleEntries_not_onPool {w : World σ} {g : ActiveConnectionGuard} {owner : ℕ} :
    ∀ e ∈ w.settleEntries g owner, e.onPool = false := by
  intro e he
  rcases mem_settleEntries he with ⟨t, -, rfl⟩ | ⟨t, -, -, rfl⟩ | ⟨-, rfl⟩
  all_goals rfl

/-- The second half of a drop touches one count. -/
theorem Sync.settle {w : World σ} (h : Sync w) (g : ActiveConnectionGuard) (owner : ℕ) :
    Sync (w.settle g owner) :=
  h.congr _ rfl rfl (records_modify fun _ => rfl) rfl rfl settleEntries_not_onPool

/-- The member in the picked slot is the one the dial is routed to. -/
theorem Sync.members_afterRoute {w : World σ} (h : Sync w) {idx : ℕ} {b : Backend}
    (hb : w.lb.backends[idx]? = some b) (strategy : σ) {d : Dial} (hd : d.owner = b.tag) :
    (w.afterRoute idx strategy d).pool.members = w.pool.members.modify idx Member.routeOne := by
  obtain ⟨x, hx, hxt⟩ := h.member (tags_getElem? hb)
  rw [← Pool.members_route hx, hxt, ← hd]
  exact congrArg Pool.members (Pool.replay_concat w.log _)

/-- A routed dial is counted by the member it was routed to. -/
theorem Sync.afterRoute {w : World σ} (h : Sync w) {idx : ℕ} {b : Backend}
    (hb : w.lb.backends[idx]? = some b) (strategy : σ) {d : Dial} (hd : d.owner = b.tag) :
    Sync (w.afterRoute idx strategy d) := by
  have hpool := h.members_afterRoute hb strategy hd
  refine ⟨?_, ?_, ?_, h.fresh⟩
  · rw [Pool.tags, hpool]
    exact h.tags.trans (Keyed.map_modify_of_absorb Member.tag_routeOne).symm
  · rw [hpool]
    exact h.ids.trans (Keyed.map_modify_of_absorb Member.id_routeOne).symm
  · rw [hpool, Keyed.map_modify_of_comm Member.record_routeOne, ← h.records]
    exact Keyed.map_modify_of_comm fun _ => rfl

/-- The new backend joins the pool at the end. -/
theorem Sync.members_added {w : World σ} (h : Sync w) (id : Option String) (ptr : ℕ) :
    (w.added id (w.lb.pushBackend id ⟨w.fresh, ptr⟩)).pool.members =
      w.pool.members ++ [⟨w.fresh, id, default, 0⟩] := by
  have hnew : w.fresh ∉ w.pool.tags := fun hmem => (h.fresh _ (h.tags ▸ hmem)).false
  rw [← Pool.members_enter hnew]
  exact congrArg Pool.members (Pool.replay_concat w.log _)

/-- A new backend fills one more slot of each vector. -/
theorem Sync.added {w : World σ} (h : Sync w) (id : Option String) (ptr : ℕ) :
    Sync (w.added id (w.lb.pushBackend id ⟨w.fresh, ptr⟩)) := by
  have hpool := h.members_added id ptr
  refine ⟨?_, ?_, ?_, ?_⟩
  · rw [tags_added, h.tags, Pool.tags, Pool.tags, hpool, List.map_append]
    rfl
  · rw [hpool, List.map_append, ← h.ids]
    rfl
  · rw [hpool, List.map_append, ← h.records]
    exact List.map_append
  · intro t ht
    rw [tags_added] at ht
    rcases List.mem_append.mp ht with ht | ht
    · exact (h.fresh t ht).trans (Nat.lt_succ_self _)
    · rw [List.mem_singleton.mp ht]
      exact Nat.lt_succ_self _

/-- The member in the removed slot leaves the pool. -/
theorem Sync.members_afterLeave {w : World σ} (h : Sync w) {index : ℕ} {b : Backend}
    (hb : w.lb.backends[index]? = some b) :
    (w.afterLeave index b).pool.members = w.pool.members.eraseIdx index := by
  obtain ⟨x, hx, hxt⟩ := h.member (tags_getElem? hb)
  rw [← Pool.members_leave hx, hxt]
  exact congrArg Pool.members (Pool.replay_concat w.log _)

/-- A removal empties the same slot of each vector. -/
theorem Sync.afterLeave {w : World σ} (h : Sync w) {index : ℕ} {b : Backend}
    (hb : w.lb.backends[index]? = some b) : Sync (w.afterLeave index b) := by
  have hpool := h.members_afterLeave hb
  refine ⟨?_, ?_, ?_, fun t ht => h.fresh t (List.mem_of_mem_eraseIdx (tags_afterLeave ▸ ht))⟩
  · rw [tags_afterLeave, Pool.tags, hpool, ← List.eraseIdx_map, ← Pool.tags, h.tags]
  · rw [hpool, ← List.eraseIdx_map, ← h.ids]
    rfl
  · rw [hpool, ← List.eraseIdx_map, ← h.records]
    exact (List.eraseIdx_map _ _ _).symm

/-- After a replacement the pool consists of newcomers. -/
theorem Sync.members_afterReplace {w : World σ} (h : Sync w) (ptrs : List ℕ)
    (strategy : Option σ) :
    (w.afterReplace ptrs strategy).pool.members =
      (tagFrom w.fresh ptrs).map (Member.newcomer default) := by
  have hnone : ((w.lb.backends.map fun b => Entry.left b.tag).foldl Pool.apply w.pool).members =
      [] := by
    have hleave := Pool.members_leave_all fun t (ht : t ∈ w.pool.tags) => h.tags.symm ▸ ht
    rwa [World.tags, List.map_map] at hleave
  have hentries : (tagFrom w.fresh ptrs).map (fun b => Entry.entered b.tag none default) =
      ((tagFrom w.fresh ptrs).map (Member.newcomer default)).map Member.entry := by
    rw [List.map_map]
    rfl
  rw [pool, World.afterReplace, Pool.replay_append, Pool.replay_append, ← pool, hentries,
    Pool.members_enter_all, hnone, List.nil_append]
  · intro x hx
    obtain ⟨b, -, rfl⟩ := List.mem_map.mp hx
    rfl
  · rw [Pool.tags, hnone, List.map_map]
    exact map_tag_tagFrom w.fresh ptrs ▸ List.nodup_range'

/-- A replacement fills all three vectors anew. -/
theorem Sync.afterReplace {w : World σ} (h : Sync w) (ptrs : List ℕ) (strategy : Option σ) :
    Sync (w.afterReplace ptrs strategy) := by
  have hpool := h.members_afterReplace ptrs strategy
  refine ⟨?_, ?_, ?_, ?_⟩
  · rw [Pool.tags, hpool, List.map_map]
    rfl
  · rw [hpool, List.map_map]
    exact List.map_const'.symm
  · rw [hpool, List.map_map]
    exact List.map_replicate.trans List.map_const'.symm
  · intro t ht
    rw [tags_afterReplace] at ht
    exact (List.mem_range'_1.mp ht).2

/-- **Every event keeps the vectors in step with the pool.** -/
theorem step_sync [BalanceStrategy σ] {env : Env} {w w' : World σ} {e : Event σ} (h : Sync w)
    (hs : w.step env e = .ok w') : Sync w' := by
  cases step_effect hs with
  | idle => exact h
  | routed _ _ hb _ howner => exact h.afterRoute hb _ howner
  | moved => exact h.congr [] rfl rfl rfl rfl (by simp [goto]) (by simp)
  | succeeded | errored =>
      exact h.congr [] rfl rfl (records_modify fun _ => rfl) rfl (by simp [goto, onMetrics])
        (by simp)
  | connected | returned | strategySet =>
      exact h.congr [] rfl rfl rfl rfl (by simp [onStrategy]) (by simp)
  | cancelled =>
      refine h.congr _ rfl rfl rfl rfl rfl ?_
      split <;> simp [Entry.onPool]
  | dropped | written =>
      refine Sync.settle ?_ _ _
      exact h.congr [] rfl rfl rfl rfl (by simp) (by simp)
  | stale | contended => exact h.congr _ rfl rfl rfl rfl rfl (by simp [Entry.onPool])
  | checked => exact h.congr [] rfl rfl rfl rfl (by simp) (by simp)
  | entered => exact h.added _ _
  | left _ _ hb => exact h.afterLeave hb
  | replaced => exact h.afterReplace _ _
  | drained =>
      exact h.congr _ rfl rfl (records_modify fun _ => rfl) rfl rfl (by simp [Entry.onPool])
  | @undrained index =>
      refine h.congr _ rfl rfl (records_modify fun _ => rfl) rfl rfl fun e he => ?_
      obtain ⟨t, -, rfl⟩ := Option.map_eq_some_iff.mp (Option.mem_toList.mp he)
      rfl

/-! ### Whole runs -/

/-- The pool of a new balancer: its backends with their seeds. -/
theorem members_init {lb : LoadBalancer σ} {seeds : List TunnelMetrics}
    (hlen : lb.backends.length ≤ seeds.length)
    (htags : lb.backends.map Backend.tag = List.range lb.backends.length) :
    (init lb seeds).pool.members =
      (lb.backends.zip seeds).map fun x => Member.newcomer x.2 x.1 := by
  have hentries : (init lb seeds).log =
      ((lb.backends.zip seeds).map fun x => Member.newcomer x.2 x.1).map Member.entry := by
    rw [List.map_map]
    rfl
  rw [pool, hentries]
  refine (Pool.members_enter_all (fun x hx => ?_) ?_).trans (List.nil_append _)
  · obtain ⟨y, -, rfl⟩ := List.mem_map.mp hx
    rfl
  · have hkeys : ((lb.backends.zip seeds).map fun x => Member.newcomer x.2 x.1).map Member.tag =
        (lb.backends.zip seeds |>.map Prod.fst).map Backend.tag := by
      rw [List.map_map, List.map_map]
      rfl
    rw [hkeys, List.map_fst_zip hlen, htags]
    exact List.nodup_range

/-- The seeds of a new balancer's pool are its metrics. -/
theorem Initial.seeds {w : World σ} (h : w.Initial) :
    w.pool.members.map Member.seed = w.lb.metrics := by
  obtain ⟨lb, seeds, hc, htags, rfl⟩ := h
  obtain ⟨rfl, -, hlen, -⟩ := hc.constructed
  rw [members_init hlen.ge htags, List.map_map]
  exact List.map_snd_zip hlen.le

/-- A new balancer's vectors are the columns of its pool. -/
theorem initial_sync {w : World σ} (h : w.Initial) : Sync w := by
  have hseeds := h.seeds
  obtain ⟨lb, seeds, hc, htags, rfl⟩ := h
  obtain ⟨rfl, hids, hlen, -⟩ := hc.constructed
  have hpool := members_init hlen.ge htags
  have hfst : (lb.backends.zip lb.metrics).map Prod.fst = lb.backends := List.map_fst_zip hlen.ge
  refine ⟨?_, ?_, ?_, ?_⟩
  · rw [Pool.tags, hpool, List.map_map]
    refine (congrArg (List.map Backend.tag) hfst.symm).trans ?_
    rw [List.map_map]
    rfl
  · rw [hpool, List.map_map]
    have hlength : lb.backends.length = (lb.backends.zip lb.metrics).length := by
      rw [← List.length_map (f := Prod.fst), hfst]
    refine hids.trans ?_
    rw [hlength]
    exact List.map_const'.symm
  · rw [← hseeds, List.map_map, hpool, List.map_map, List.map_map]
    exact List.map_congr_left fun x _ => (Member.record_newcomer x.2 x.1).symm
  · intro t ht
    rw [tags, init, htags] at ht
    exact List.mem_range.mp ht

/-- Every reachable state is in step with its pool. -/
theorem reaches_sync [BalanceStrategy σ] {env : Env} {w : World σ}
    (h : Reaches (step env) Initial w) : Sync w :=
  h.invariant (fun _ => initial_sync) fun _ _ _ => step_sync

/-- **Slot `i` of the three vectors belongs to one and the same backend**, in every
reachable state: the vectors have the length of the pool, no backend stands in two slots,
and the slot of a backend holds the id it was added with, the round-trip time it was seeded
with, and its seeded number of dials plus the dials routed to it since it entered. -/
theorem slots_agree [BalanceStrategy σ] {env : Env} {w : World σ}
    (h : Reaches (step env) Initial w) :
    w.lb.ids.length = w.lb.backends.length ∧ w.lb.metrics.length = w.lb.backends.length ∧
      w.tags.Nodup ∧ w.tags = w.pool.tags ∧
      ∀ (i : ℕ) (x : Member), w.pool.members[i]? = some x →
        w.lb.ids[i]? = some x.id ∧
        ∃ m, w.lb.metrics[i]? = some m ∧ m.rtt = x.seed.rtt ∧
          m.totalDials = x.seed.totalDials + UInt64.ofNat x.routed := by
  have hsync := reaches_sync h
  obtain ⟨hb, hi, hm⟩ := hsync.length
  refine ⟨hi.trans hb.symm, hm.trans hb.symm, hsync.nodup, hsync.tags, fun i x hx => ⟨?_, ?_⟩⟩
  · rw [hsync.ids, List.getElem?_map, hx, Option.map_some]
  · have hrec : (w.lb.metrics.map TunnelMetrics.record)[i]? = some x.record := by
      rw [hsync.records, List.getElem?_map, hx, Option.map_some]
    rw [List.getElem?_map] at hrec
    obtain ⟨m, hm, he⟩ := Option.map_eq_some_iff.mp hrec
    exact ⟨m, hm, congrArg Prod.fst he, congrArg Prod.snd he⟩

/-- A dial to the first of two backends, a third one added under an id, the first one
removed and another dial. -/
def removalRun : List (Event Builtin) :=
  Event.connecting 0 ++ [.addBackendWithId "x" 7, .removeBackend 0, .start "a:1" none none 0]

theorem slots_agree_removalRun :
    ∃ w, run (step Env.plain) (ofSize 2 (.roundRobin ⟨0⟩)) removalRun = .ok w ∧
      w.tags = [1, 2] ∧ w.lb.ids[1]? = some (some "x") ∧
      w.lb.ids.length = w.lb.backends.length ∧ w.lb.metrics.length = w.lb.backends.length := by
  have hends : ends (step Env.plain)
      (fun w => decide (w.tags = [1, 2] ∧ w.lb.ids[1]? = some (some "x")))
      (ofSize 2 (.roundRobin ⟨0⟩)) removalRun = true := by decide
  obtain ⟨w, hrun, hw⟩ := exists_run_of_ends hends
  obtain ⟨htags, hids⟩ := of_decide_eq_true hw
  obtain ⟨hi, hm, -⟩ := slots_agree ⟨_, _, initial_ofSize Nat.two_pos _, hrun⟩
  exact ⟨w, hrun, htags, hids, hi, hm⟩

end World

end RotaLb
