import RotaLb.Accounting
import RotaLb.Tracking

/-!
# How Long a Discovered Backend Stays

`RotaLb.Reconcile` says what one tick does to the pool. Over a whole run of ticks, of dials and of
drops, a backend that is tracked under an id stays as long as every list that discovery returns
names the id, and no longer: the first list that leaves it out shuts it down, also if the factory
then fails, and it never comes back, even if a later list names the id again, for what is created
then is another backend. Ticks whose `discover` fails do not count.

## Main results

* `World.step_gone`: a backend that is gone stays away.
* `Discover.step_tracks`, `Discover.step_unlisted`: what a tick does to a tracked backend.
* `Discover.stays_iff`: **a tracked backend is in the pool at the end of a run exactly if every
  list of the run names its id**.
-/

namespace RotaLb

open Rust StepSystem

variable {σ : Type}

/-- The event takes no backend out of the pool. -/
def Event.keepsPool : Event σ → Bool
  | .removeBackend _ | .removeBackendById _ | .removeBackendByPtr _ | .replaceBackends .. => false
  | _ => true

/-- The event is a tick, or an event of the balancer that takes no backend out of the pool. -/
def DiscoverEvent.keepsPool : DiscoverEvent σ → Bool
  | .balancer e => e.keepsPool
  | .tick _ _ => true

/-- The list that the event brings, if it is a tick whose `discover` succeeded, names the id. -/
def DiscoverEvent.names (id : String) : DiscoverEvent σ → Bool
  | .tick (.ok ds) _ => (ds.map BackendDescriptor.id).contains id
  | _ => true

namespace World

/-- The backend with tag `t` is in the pool under the id. -/
def Tracks (t : ℕ) (id : String) (w : World σ) : Prop :=
  ∃ k : ℕ, w.tags[k]? = some t ∧ w.lb.ids[k]? = some (some id)

/-- The backend with tag `t` has been in the pool and is not any more. -/
def Gone (t : ℕ) (w : World σ) : Prop := t < w.fresh ∧ t ∉ w.tags

variable {env : Env} {w w' : World σ} {t : ℕ} {id : String}

theorem Tracks.mem_tags (h : Tracks t id w) : t ∈ w.tags := by
  obtain ⟨k, ht, -⟩ := h
  exact List.mem_of_getElem? ht

/-- A backend that is in the pool under the id has its row in the table. -/
theorem Tracks.row {rows : List Row} (h : Tracks t id w) (hrows : HasRows w rows) :
    ∃ row ∈ rows, row.backend.tag = t ∧ row.id = some id := by
  obtain ⟨k, ht, hid⟩ := h
  rw [hrows.tags, List.getElem?_map] at ht
  rw [hrows.ids, List.getElem?_map] at hid
  cases hrow : rows[k]? with
  | none => simp [hrow] at hid
  | some row =>
      simp only [hrow, Option.map_some, Option.some.injEq] at ht hid
      exact ⟨row, List.mem_of_getElem? hrow, ht, hid⟩

/-- A row of the table is a backend in the pool. -/
theorem HasRows.tracks {rows : List Row} {row : Row} (h : HasRows w rows) (hrow : row ∈ rows)
    (hid : row.id = some id) : Tracks row.backend.tag id w := by
  obtain ⟨k, hk⟩ := List.mem_iff_getElem?.mp hrow
  refine ⟨k, ?_, ?_⟩
  · rw [h.tags, List.getElem?_map, hk, Option.map_some]
  · rw [h.ids, List.getElem?_map, hk, Option.map_some, hid]

variable [BalanceStrategy σ]

/-- **A backend that is gone stays away**: a backend that enters has a tag of its own. -/
theorem step_gone {e : Event σ} (h : Gone t w) (hs : w.step env e = .ok w') : Gone t w' := by
  refine ⟨h.1.trans_le (step_fresh_le hs), ?_⟩
  have hfresh := h.1
  cases step_effect hs with
  | entered =>
      rw [tags_added, List.mem_append, List.mem_singleton]
      rintro (hmem | rfl)
      · exact h.2 hmem
      · exact Nat.lt_irrefl _ hfresh
  | left =>
      rw [tags_afterLeave]
      exact fun hmem => h.2 (List.mem_of_mem_eraseIdx hmem)
  | replaced =>
      rw [tags_afterReplace]
      intro hmem
      have hge := (List.mem_range'_1.mp hmem).1
      omega
  | _ => exact h.2

omit [BalanceStrategy σ] in
/-- An event that takes no backend out of the pool selects none. -/
theorem removalIndex_of_keepsPool {e : Event σ} (he : e.keepsPool = true) :
    w.removalIndex e = none := by
  cases e with
  | removeBackend => cases he
  | removeBackendById => cases he
  | removeBackendByPtr => cases he
  | _ => rfl

/-- An event that takes no backend out of the pool keeps a tracked one. -/
theorem step_tracks {e : Event σ} (h : Tracks t id w) (he : e.keepsPool = true)
    (hs : w.step env e = .ok w') : Tracks t id w' := by
  obtain ⟨k, ht, hid⟩ := h
  cases step_effect hs with
  | entered =>
      have hlt := (List.getElem?_eq_some_iff.mp ht).1
      have hlt' := (List.getElem?_eq_some_iff.mp hid).1
      refine ⟨k, ?_, ?_⟩
      · rw [tags_added, List.getElem?_append_left hlt, ht]
      · simp only [added, LoadBalancer.pushBackend]
        rw [List.getElem?_append_left hlt', hid]
  | left _ hindex => simp [removalIndex_of_keepsPool he] at hindex
  | replaced => cases he
  | _ => exact ⟨k, ht, hid⟩

end World

/-- Of the backends that were there before the reconciliation only listed ones, or ones without an
id, are in the pool after it. -/
theorem Reconciled.From.exists_listed {w : World σ} {r : Reconciled σ} {rows : List Row}
    {ds : List BackendDescriptor} {create : DescriptorFactory} {t : ℕ}
    (h : r.From w rows ds create) (hold : t < w.fresh) (hmem : t ∈ r.world.tags) :
    ∃ row ∈ rows, row.backend.tag = t ∧ row.listed (ds.map BackendDescriptor.id) = true := by
  obtain ⟨added, hrows, -, htags, -⟩ := h.rows
  rw [hrows.tags] at hmem
  obtain ⟨row, hrow, rfl⟩ := List.mem_map.mp hmem
  rcases List.mem_append.mp hrow with hkept | hadded
  · obtain ⟨hin, hlisted⟩ := List.mem_filter.mp hkept
    exact ⟨row, hin, rfl, hlisted⟩
  · have hge := h.fresh_le (htags ▸ List.mem_map_of_mem hadded)
    omega

namespace Discover

variable [BalanceStrategy σ] {env : Env} {s s' : Discover σ} {t : ℕ} {id : String}

/-- A backend that is gone stays away, whatever the loop finds. -/
theorem step_gone {e : DiscoverEvent σ} (h : s.world.Gone t) (hs : s.step env e = .ok s') :
    s'.world.Gone t := by
  obtain ⟨es, hes⟩ := step_run hs
  exact run_invariant (fun _ _ _ => World.step_gone) h hes

/-- A tracked backend stays at every event that names its id and takes nothing out itself. -/
theorem step_tracks {e : DiscoverEvent σ} (hsync : s.world.Sync) (h : s.world.Tracks t id)
    (he : e.keepsPool = true) (hnames : e.names id = true) (hs : s.step env e = .ok s') :
    s'.world.Tracks t id := by
  cases e with
  | balancer e =>
      obtain ⟨w, hw, hret⟩ := bind_eq_ok.mp hs
      cases hret
      exact World.step_tracks h he hw
  | tick found create =>
      cases found with
      | error err =>
          cases hs
          exact h
      | ok ds =>
          obtain ⟨hd, r, hr, rfl⟩ := step_tick_eq_ok hs
          obtain ⟨rows, hrows⟩ := hsync.hasRows
          obtain ⟨row, hrow, rfl, hid⟩ := h.row hrows
          obtain ⟨added, hrows', -⟩ := (World.from_of_reconcile hd hrows hr).rows
          refine hrows'.tracks (List.mem_append_left _ (List.mem_filter.mpr ⟨hrow, ?_⟩)) hid
          simpa [Row.listed, hid, DiscoverEvent.names] using hnames

/-- A tracked backend leaves at a tick whose list does not name its id. -/
theorem step_unlisted {e : DiscoverEvent σ} (hsync : s.world.Sync) (h : s.world.Tracks t id)
    (hnames : e.names id = false) (hs : s.step env e = .ok s') : s'.world.Gone t := by
  cases e with
  | balancer e => cases hnames
  | tick found create =>
      cases found with
      | error err => cases hnames
      | ok ds =>
          have hold := hsync.fresh t h.mem_tags
          have hlt : t < s'.world.fresh := by
            obtain ⟨es, hes⟩ := step_run hs
            exact run_invariant (I := fun w : World σ => t < w.fresh)
              (fun _ _ _ hlt hstep => hlt.trans_le (World.step_fresh_le hstep)) hold hes
          refine ⟨hlt, fun hmem => ?_⟩
          obtain ⟨hd, r, hr, rfl⟩ := step_tick_eq_ok hs
          obtain ⟨rows, hrows⟩ := hsync.hasRows
          obtain ⟨row, hrow, htag, hid⟩ := h.row hrows
          obtain ⟨row', hrow', htag', hlisted⟩ :=
            (World.from_of_reconcile hd hrows hr).exists_listed hold hmem
          -- tags are distinct, so the row kept is the one that is not listed
          obtain rfl := List.inj_on_of_nodup_map (hrows.tags ▸ hsync.nodup) hrow' hrow
            (htag'.trans htag.symm)
          simp only [Row.listed, hid, Option.all_some, decide_eq_true_eq] at hlisted
          rw [DiscoverEvent.names, List.contains_iff_mem.mpr hlisted] at hnames
          cases hnames

/-- **A tracked backend stays exactly as long as it is listed.** Over every run of ticks, of dials,
of drops and of additions from any state of a running `Discover`, whatever `discover` and the
factory return: a backend that is tracked under an id at the beginning is in the pool at the end if
and only if every list that `discover` returned names the id. -/
theorem stays_iff (h : Running env s) (htracks : s.world.Tracks t id) {es : List (DiscoverEvent σ)}
    (hes : ∀ e ∈ es, e.keepsPool = true) (hrun : run (step env) s es = .ok s') :
    t ∈ s'.world.tags ↔ ∀ e ∈ es, e.names id = true := by
  have hsync := World.reaches_sync h.world
  clear h
  induction es generalizing s with
  | nil =>
      obtain rfl : s = s' := by simpa using hrun
      exact iff_of_true htracks.mem_tags (by simp)
  | cons e es ih =>
      obtain ⟨s₁, h1, h2⟩ := run_cons_eq_ok.mp hrun
      have hsync₁ := step_sync hsync h1
      rw [List.forall_mem_cons]
      cases hnames : e.names id with
      | true =>
          have htracks₁ := step_tracks hsync htracks (hes e List.mem_cons_self) hnames h1
          have hes' : ∀ e ∈ es, e.keepsPool = true := (List.forall_mem_cons.mp hes).2
          simpa using ih htracks₁ hes' h2 hsync₁
      | false =>
          have hgone := step_unlisted hsync htracks hnames h1
          have hlast := run_invariant (I := fun s : Discover σ => s.world.Gone t)
            (fun _ _ _ => step_gone) hgone h2
          exact iff_of_false hlast.2 (by simp)

/-- A `Discover` that has created "a" and "b". -/
def tenants : List (DiscoverEvent Builtin) :=
  [.tick (.ok [.new "a" "h:1", .new "b" "h:2"]) (.failsAt 2)]

/-- A failed lookup, a dial, a list without "a" and a list that has it again. -/
def eviction : List (DiscoverEvent Builtin) :=
  [.tick (.error (.io "lookup failed")) (.failsAt 0), .balancer (.start "h:1" none none 0),
    .balancer (.cancel 0), .tick (.ok [.new "b" "h:2"]) (.failsAt 0),
    .tick (.ok [.new "b" "h:2", .new "a" "h:1"]) (.failsAt 1)]

/-- The backend first created for "a" is gone for good, although "a" is tracked again; the one
for "b" is still there. -/
theorem stays_iff_eviction :
    ∃ s s', run (step Env.plain) fresh tenants = .ok s ∧
      run (step Env.plain) s eviction = .ok s' ∧
      1 ∉ s'.world.tags ∧ 2 ∈ s'.world.tags ∧ s'.world.trackedIds = ["b", "a"] := by
  have hends : ends (step Env.plain)
      (fun s => decide (s.world.tags = [0, 1, 2] ∧ s.world.lb.ids = [none, some "a", some "b"]) &&
        ends (step Env.plain) (fun s => decide (s.world.trackedIds = ["b", "a"])) s eviction)
      fresh tenants = true := by decide
  obtain ⟨s, hrun, hs⟩ := exists_run_of_ends hends
  obtain ⟨hpool, hrest⟩ := Bool.and_eq_true_iff.mp hs
  obtain ⟨htags, hids⟩ := of_decide_eq_true hpool
  obtain ⟨s', hrun', hids'⟩ := exists_run_of_ends hrest
  have hrunning : Running Env.plain s :=
    ⟨fresh, tenants, ⟨_, [], World.initial_ofSize Nat.one_pos _, rfl⟩, hrun⟩
  have ha : s.world.Tracks 1 "a" := ⟨1, by rw [htags]; rfl, by rw [hids]; rfl⟩
  have hb : s.world.Tracks 2 "b" := ⟨2, by rw [htags]; rfl, by rw [hids]; rfl⟩
  have hkeeps : ∀ e ∈ eviction, e.keepsPool = true := by decide
  refine ⟨s, s', hrun, hrun', fun hmem => ?_, ?_, of_decide_eq_true hids'⟩
  · exact absurd ((stays_iff hrunning ha hkeeps hrun').mp hmem) (by decide)
  · exact (stays_iff hrunning hb hkeeps hrun').mpr (by decide)

end Discover

end RotaLb
