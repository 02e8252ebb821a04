import RotaLb.Load

/-!
# Connection Accounting

`active_connections` of a backend against the connections it really has. The balancer's
book (`RotaLb.Load`) changes by transfers of the ledger library, so the ledger's relations
hold in every run: a count is never above the seed plus the load, and it is equal to it as
long as no count wraps and every guard's decrement reaches its own backend.

## Main results

* `step_transfer`: **every event is a transfer of the book**.
* `reaches_counts_le`: counts are never above seed and load, in every reachable state.
* `run_exact`: **counts are exact** in every run whose decrements find their guard's slot
  where it was.
-/

namespace RotaLb

open Rust StepSystem Ledger

variable {σ : Type}

namespace World

/-! ### Every event is a transfer -/

/-- A metrics update that leaves the counts alone. -/
theorem counts_modify_of_eq {ms : List TunnelMetrics} {i : ℕ} {f : TunnelMetrics → TunnelMetrics}
    (hf : ∀ m, (f m).activeConnections = m.activeConnections) :
    (ms.modify i f).map (fun m => m.activeConnections.toNat) =
      ms.map fun m => m.activeConnections.toNat :=
  Keyed.map_modify_of_absorb fun m => congrArg UInt32.toNat (hf m)

/-- A metrics update that decrements the count, saturating. -/
theorem counts_modify_of_dec {ms : List TunnelMetrics} {i : ℕ} {f : TunnelMetrics → TunnelMetrics}
    (hf : ∀ m, (f m).activeConnections = saturatingDec m.activeConnections) :
    (ms.modify i f).map (fun m => m.activeConnections.toNat) =
      (ms.map fun m => m.activeConnections.toNat).modify i (· - 1) :=
  Keyed.map_modify_of_comm fun m => by rw [hf, toNat_saturatingDec]

/-- An event that changes neither the pool nor the counts and moves debts only. -/
theorem transfer_keep {w w' : World σ} {F : Prop} (es : List Entry) (hlog : w'.log = w.log ++ es)
    (hes : ∀ e ∈ es, e.onPool = false) (hcounts : w'.book.counts = w.book.counts)
    (hload : ∀ t, w'.load t = w.load t) : Transfer wrapInc F w.book w'.book := by
  have hpool : w'.pool = w.pool := pool_eq_of_log hlog hes
  exact .keep (by rw [book, hpool, book]) hcounts hload

/-- The second half of a drop repays the debt, loses it, or decrements another count. -/
theorem transfer_settle {w base : World σ} (hsync : Sync w) {g : ActiveConnectionGuard}
    {owner : ℕ} (hlb : base.lb = w.lb) (hlog : base.log = w.log)
    (hload : ∀ t, base.load t + (if owner = t then 1 else 0) = w.load t) :
    Transfer wrapInc (Faithful (base.settle g owner)) w.book
      (base.settle g owner).book := by
  have htags : base.tags = w.tags := congrArg (fun lb => lb.backends.map Backend.tag) hlb
  have hpool : (base.settle g owner).pool = w.pool :=
    pool_eq_of_log (by rw [settle, hlog]) settleEntries_not_onPool
  have haccounts : (base.settle g owner).book.accounts = w.book.accounts := by
    rw [book, hpool, book]
  have hcounts : (base.settle g owner).book.counts =
      w.book.counts.modify g.index (· - 1) := by
    rw [book, settle, hlb]
    exact counts_modify_of_dec fun _ => rfl
  have hafter := load_settle (w := base) g owner
  rw [htags] at hafter
  cases ht : w.tags[g.index]? with
  | none =>
      have hlen : w.book.counts.length ≤ g.index := by
        rw [book, List.length_map, hsync.length.2.2, ← hsync.length.1]
        simpa [tags] using ht
      refine .keep haccounts (hcounts.trans (List.modify_eq_self hlen)) fun t => ?_
      have h1 := hafter t
      have h2 := hload t
      rw [ht, if_neg (by simp)] at h1
      exact h1.trans h2
  | some t =>
      by_cases hto : t = owner
      · subst hto
        refine .repay (hsync.keys_book ▸ ht) haccounts hcounts fun u => ?_
        have h1 := hafter u
        rw [ht, if_pos rfl] at h1
        exact (congrArg (· + if t = u then 1 else 0) h1).trans (hload u)
      · refine .misdirect (i := g.index) (fun hF => hto ?_) haccounts hcounts fun u => ?_
        · refine (hF owner t (List.mem_append_right _ ?_)).symm
          simp [settleEntries, htags, ht, hto]
        · have h1 := hafter u
          rw [ht, if_neg fun he => hto (Option.some.inj he)] at h1
          exact h1.trans (hload u)

/-- **Every event is a transfer of the book.** It is faithful unless a guard's decrement
reached another backend. -/
theorem step_transfer [BalanceStrategy σ] {env : Env} {w w' : World σ} {e : Event σ}
    (hsync : Sync w) (hplaced : Placed w) (hunused : Unused w) (hs : w.step env e = .ok w') :
    Transfer wrapInc (Faithful w') w.book w'.book := by
  cases step_effect hs with
  | idle => exact .keep rfl rfl fun _ => rfl
  | @routed _ _ _ _ idx b strategy d _ _ hb _ howner _ _ hphase =>
      refine .borrow (hsync.keys_book ▸ tags_getElem? hb) ?_ ?_ fun t => ?_
      · rw [book, hsync.members_afterRoute hb strategy howner]
        exact Keyed.map_modify_of_absorb fun x => by rw [Member.tag_routeOne, Member.seed_routeOne]
      · exact Keyed.map_modify_of_comm fun m => UInt32.toNat_add _ _
      · rw [← howner]
        exact load_afterRoute (by rw [hphase]; rfl) t
  | moved _ hd hold hnew => exact .keep rfl rfl (load_goto hd (hnew.trans hold.symm))
  | @succeeded k d hd hphase =>
      refine .keep rfl (counts_modify_of_eq fun _ => rfl) fun t => ?_
      exact load_goto (w := w.onMetrics d.index _) hd (by rw [hphase]; rfl) t
  | @errored k d err hd hphase =>
      have hslot := (hplaced.dials d (List.mem_of_getElem? hd)).1
      refine .repay (hsync.keys_book ▸ hslot) rfl (counts_modify_of_dec fun _ => rfl) fun t => ?_
      exact load_goto_settled (w := w.onMetrics d.index _) hd (by rw [hphase]; rfl) rfl t
  | connected hd hphase =>
      exact .keep rfl rfl (load_connected hd (by rw [hphase]; rfl) rfl)
  | returned hd hphase =>
      exact .keep rfl rfl (load_returned hd (by rw [hphase]; rfl))
  | cancelled hd =>
      refine transfer_keep _ rfl ?_ rfl (load_cancel hd)
      split <;> simp [Entry.onPool]
  | dropped hh => exact transfer_settle hsync rfl rfl (load_eraseGuard hh)
  | written hp => exact transfer_settle hsync rfl rfl (load_eraseDrop hp)
  | @stale _ g h _ hh =>
      refine transfer_keep _ rfl (by simp [Entry.onPool]) rfl fun t => ?_
      exact (load_pushLeak (w := { w with guards := w.guards.eraseIdx g }) t).trans
        (load_eraseGuard hh t)
  | @checked g h hh =>
      refine .keep rfl rfl fun t => ?_
      exact (load_pushDrop (w := { w with guards := w.guards.eraseIdx g }) t).trans
        (load_eraseGuard hh t)
  | @contended d p hp =>
      refine transfer_keep _ rfl (by simp [Entry.onPool]) rfl fun t => ?_
      exact (load_pushLeak (w := { w with drops := w.drops.eraseIdx d }) t).trans
        (load_eraseDrop hp t)
  | @entered _ id ptr =>
      refine .enter (hunused w.fresh le_rfl) ?_ List.map_append fun t => ?_
      · rw [book, hsync.members_added id ptr, List.map_append]
        rfl
      · exact load_congr _ _ t rfl rfl rfl rfl (by simp [Entry.leakOf])
  | @left _ index b _ _ hb =>
      refine .leave (i := index) ?_ (List.eraseIdx_map _ _ _).symm fun t => ?_
      · rw [book, hsync.members_afterLeave hb, ← List.eraseIdx_map]
        rfl
      · exact load_congr _ _ t rfl rfl (List.map_map.trans rfl) rfl (by simp [Entry.leakOf])
  | @replaced ptrs strategy =>
      refine .renew ((tagFrom w.fresh ptrs).map fun b => (b.tag, 0)) ?_ ?_ ?_ fun t => ?_
      · intro a ha
        obtain ⟨b, hb, rfl⟩ := List.mem_map.mp ha
        have hmem : b.tag ∈ (tagFrom w.fresh ptrs).map Backend.tag := List.mem_map_of_mem hb
        rw [map_tag_tagFrom] at hmem
        exact hunused b.tag (List.mem_range'_1.mp hmem).1
      · rw [book, hsync.members_afterReplace, List.map_map]
        rfl
      · rw [List.map_map]
        exact List.map_replicate.trans List.map_const'.symm
      · refine load_congr _ _ t rfl rfl (List.map_map.trans rfl) (List.append_assoc _ _ _) ?_
        intro e he
        rcases List.mem_append.mp he with he | he
        · obtain ⟨b, -, rfl⟩ := List.mem_map.mp he
          rfl
        · obtain ⟨b, -, rfl⟩ := List.mem_map.mp he
          rfl
  | drained =>
      refine transfer_keep _ rfl (by simp [Entry.onPool]) (counts_modify_of_eq fun _ => rfl)
        fun t => ?_
      exact load_congr _ _ t rfl rfl rfl rfl (by simp [Entry.leakOf])
  | @undrained index =>
      have hentry : ∀ e ∈ (w.tags[index]?.map Entry.undrained).toList, ∃ u, e = .undrained u := by
        intro e he
        obtain ⟨u, -, rfl⟩ := Option.map_eq_some_iff.mp (Option.mem_toList.mp he)
        exact ⟨u, rfl⟩
      refine transfer_keep _ rfl (fun e he => ?_) (counts_modify_of_eq fun _ => rfl) fun t => ?_
      · obtain ⟨u, rfl⟩ := hentry e he
        rfl
      · refine load_congr _ _ t rfl rfl rfl rfl fun e he => ?_
        obtain ⟨u, rfl⟩ := hentry e he
        rfl
  | strategySet => exact .keep rfl rfl fun _ => rfl

/-! ### Soundness -/

/-- What holds in every reachable state: the vectors are in step, the indices held outside
are placed, and unused tags carry no load. -/
structure Sound (w : World σ) : Prop where
  sync : Sync w
  placed : Placed w
  unused : Unused w

/-- Tags are only ever given out. -/
theorem step_fresh_le [BalanceStrategy σ] {env : Env} {w w' : World σ} {e : Event σ}
    (hs : w.step env e = .ok w') : w.fresh ≤ w'.fresh := by
  cases step_effect hs with
  | entered => exact Nat.le_succ _
  | replaced => exact Nat.le_add_right _ _
  | _ => exact le_rfl

/-- **Every event keeps a sound world sound.** -/
theorem step_sound [BalanceStrategy σ] {env : Env} {w w' : World σ} {e : Event σ} (h : Sound w)
    (hs : w.step env e = .ok w') : Sound w' := by
  refine ⟨step_sync h.sync hs, step_placed h.placed hs, h.unused.mono (step_fresh_le hs) ?_⟩
  intro t ht
  refine (step_transfer h.sync h.placed h.unused hs).load_le fun hmem => ?_
  exact (h.sync.fresh t (h.sync.keys_book ▸ hmem)).not_ge ht

/-- A new world carries no load. -/
theorem initial_load {w : World σ} (h : w.Initial) (t : ℕ) : w.load t = 0 := by
  obtain ⟨lb, seeds, -, -, rfl⟩ := h
  have hleaks : (init lb seeds).leaks t = 0 := by
    refine List.countP_eq_zero.mpr fun e he => ?_
    obtain ⟨x, -, rfl⟩ := List.mem_map.mp he
    exact Bool.false_ne_true
  rw [load, hleaks]
  rfl

/-- A new world is sound. -/
theorem initial_sound {w : World σ} (h : w.Initial) : Sound w :=
  ⟨initial_sync h, initial_placed h, fun t _ => initial_load h t⟩

/-- The counters of the book stand beside its accounts. -/
theorem Sync.length_book {w : World σ} (h : Sync w) :
    w.book.counts.length = w.book.accounts.length := by
  rw [book, List.length_map, List.length_map, h.length.2.2]

/-- The keys of the book are distinct. -/
theorem Sync.nodup_book {w : World σ} (h : Sync w) : w.book.keys.Nodup :=
  h.keys_book ▸ h.nodup

/-- A relation of the book, slot by slot. -/
theorem balanced_iff {R : ℕ → ℕ → Prop} {w : World σ} : w.book.Balanced R ↔
    ∀ (i : ℕ) (x : Member) (m : TunnelMetrics), w.pool.members[i]? = some x →
      w.lb.metrics[i]? = some m →
      R m.activeConnections.toNat (x.seed.activeConnections.toNat + w.load x.tag) := by
  constructor
  · intro h i x m hx hm
    refine h i x.tag _ _ ?_ ?_
    · rw [book, List.getElem?_map, hx, Option.map_some]
    · rw [book, List.getElem?_map, hm, Option.map_some]
  · intro h i k o a hk ha
    rw [book, List.getElem?_map] at hk ha
    obtain ⟨x, hx, he⟩ := Option.map_eq_some_iff.mp hk
    obtain ⟨m, hm, rfl⟩ := Option.map_eq_some_iff.mp ha
    cases he
    exact h i x m hx hm

/-- A new world's counts are its seeds. -/
theorem initial_balanced {R : ℕ → ℕ → Prop} (hR : ∀ n, R n n) {w : World σ} (h : w.Initial) :
    w.book.Balanced R := by
  refine balanced_iff.mpr fun i x m hx hm => ?_
  rw [← h.seeds, List.getElem?_map, hx, Option.map_some] at hm
  rw [← Option.some.inj hm, initial_load h]
  exact hR _

/-! ### Counts never exceed the load -/

/-- The increment never adds more than one. -/
theorem wrapInc_le (a : ℕ) : wrapInc a ≤ a + 1 := Nat.mod_le _ _

/-- **In every reachable state** a count is at most its seed plus the load of its
backend. -/
theorem reaches_counts_le [BalanceStrategy σ] {env : Env} {w : World σ}
    (h : Reaches (step env) Initial w) : w.book.Balanced (· ≤ ·) := by
  have hinv : Sound w ∧ w.book.Balanced (· ≤ ·) := by
    refine h.invariant (J := fun w => Sound w ∧ w.book.Balanced (· ≤ ·)) ?_ ?_
    · exact fun w hw => ⟨initial_sound hw, initial_balanced (fun _ => le_rfl) hw⟩
    · rintro w e w' ⟨hsound, hbal⟩ hs
      have ht := step_transfer hsound.sync hsound.placed hsound.unused hs
      exact ⟨step_sound hsound hs, ht.balanced (tracks_le wrapInc_le _) hsound.sync.nodup_book
        hsound.sync.length_book (fun _ _ _ => trivial) hbal⟩
  exact hinv.2

/-! ### Counts are exact -/

/-- Fewer than `2 ^ 32` connections are counted for each backend, and the generation has
changed fewer than `2 ^ 64` times. -/
def Bounded (w : World σ) : Prop :=
  (∀ x ∈ w.pool.members, x.seed.activeConnections.toNat + w.load x.tag < 2 ^ 32) ∧
    w.epoch < 2 ^ 64

/-- The event performs no decrement, or one that finds its guard's slot where it was: a
drop in one step with its generation current, or a write with no shift since its check, or
past the end of the metrics. -/
def SafeWrite (w : World σ) : Event σ → Prop
  | .drop g => ∀ h ∈ w.guards[g]?, w.lb.generation = h.guard.genAtCreation → h.epoch = w.epoch
  | .dropWrite d true => ∀ p ∈ w.drops[d]?, p.shifted = false ∨ w.tags.length ≤ p.guard.index
  | _ => True

instance (w : World σ) : Decidable (Bounded w) :=
  inferInstanceAs (Decidable (_ ∧ _))

instance (w : World σ) : DecidablePred (SafeWrite w)
  | .drop g => inferInstanceAs (Decidable (∀ h ∈ w.guards[g]?, _ → _))
  | .dropWrite d true => inferInstanceAs (Decidable (∀ p ∈ w.drops[d]?, _ ∨ _))
  | .dropWrite _ false | .start .. | .attempted .. | .woke _ | .lockMetrics _ | .lockStrategy _
  | .cancel _ | .dropCheck _ | .addBackend _ | .addBackendWithId .. | .removeBackend _
  | .removeBackendById _ | .removeBackendByPtr _ | .replaceBackends .. | .drainBackend _
  | .undrainBackend _ | .setStrategy _ => .isTrue trivial

/-- Below `2 ^ 64` changes, an unchanged generation is the one the guard was made in. -/
theorem Placed.epoch_eq {w : World σ} (hp : Placed w) (hb : w.epoch < 2 ^ 64) {h : Held}
    (hh : h ∈ w.guards) (hgen : w.lb.generation = h.guard.genAtCreation) :
    h.epoch = w.epoch := by
  obtain ⟨hle, hmade, -⟩ := hp.guards h hh
  rw [hp.generation, hmade] at hgen
  have := congrArg UInt64.toNat hgen
  rw [UInt64.toNat_ofNat_of_lt' hb, UInt64.toNat_ofNat_of_lt' (hle.trans_lt hb)] at this
  exact this.symm

/-- A decrement that reaches the guard's backend. -/
theorem settleEntries_of_slot {w : World σ} {g : ActiveConnectionGuard} {owner : ℕ}
    (h : w.tags[g.index]? = some owner) :
    w.settleEntries g owner = [.decremented owner owner] := by
  rw [settleEntries, h]
  exact if_pos rfl

/-- A decrement that reaches another backend. -/
theorem settleEntries_of_ne {w : World σ} {g : ActiveConnectionGuard} {owner t : ℕ}
    (h : w.tags[g.index]? = some t) (hne : t ≠ owner) :
    w.settleEntries g owner = [.decremented owner t, .leaked owner .misdirected] := by
  rw [settleEntries, h]
  exact if_neg hne

/-- **Events that write safely keep every decrement on its own backend.** -/
theorem step_faithful [BalanceStrategy σ] {env : Env} {w w' : World σ} {e : Event σ}
    (hplaced : Placed w) (h : Faithful w) (hsafe : SafeWrite w e) (hs : w.step env e = .ok w') :
    Faithful w' := by
  intro o t hmem
  rcases mem_log_of_step hs hmem with hold | hnew
  · exact h o t hold
  · have hdec : w.Decrements e o (some t) := hnew
    cases hdec with
    | drop hh hgen hslot =>
        have hown := (hplaced.guards _ (List.mem_of_getElem? hh)).2.2 (hsafe _ hh hgen)
        exact Option.some.inj (hown.symm.trans hslot)
    | write hp hslot =>
        rcases hsafe _ hp with hshift | hlen
        · have hown := hplaced.drops _ (List.mem_of_getElem? hp) hshift
          exact Option.some.inj (hown.symm.trans hslot)
        · exact absurd (List.getElem?_eq_some_iff.mp hslot).1 (not_lt.mpr hlen)

/-- A sound world whose counts are exact. -/
structure Exact (w : World σ) : Prop where
  sound : Sound w
  faithful : Faithful w
  balanced : w.book.Balanced (· = ·)

/-- Below the wrap the increment adds one. -/
theorem wrapInc_of_lt (a : ℕ) (h : a + 1 < 2 ^ 32) : wrapInc a = a + 1 := Nat.mod_eq_of_lt h

/-- **Events that write safely keep the counts exact**, as long as the counts fit. -/
theorem step_exact [BalanceStrategy σ] {env : Env} {w w' : World σ} {e : Event σ} (h : Exact w)
    (hsafe : SafeWrite w e) (hb : Bounded w') (hs : w.step env e = .ok w') : Exact w' := by
  obtain ⟨hsound, hfaithful, hbal⟩ := h
  have hfaithful' : Faithful w' := step_faithful hsound.placed hfaithful hsafe hs
  have ht := step_transfer hsound.sync hsound.placed hsound.unused hs
  refine ⟨step_sound hsound hs, hfaithful', ?_⟩
  refine ht.balanced (tracks_eq wrapInc_of_lt hfaithful') hsound.sync.nodup_book
    hsound.sync.length_book (fun k o hmem => ?_) hbal
  obtain ⟨x, hx, he⟩ := List.mem_map.mp hmem
  cases he
  exact hb.1 x hx

/-- A new world is exact. -/
theorem initial_exact {w : World σ} (h : w.Initial) : Exact w := by
  refine ⟨initial_sound h, ?_, initial_balanced (fun _ => rfl) h⟩
  obtain ⟨lb, seeds, -, -, rfl⟩ := h
  intro o t hmem
  obtain ⟨x, -, he⟩ := List.mem_map.mp hmem
  cases he

/-- **Whole runs of safe writes keep the counts exact.** -/
theorem run_exact [BalanceStrategy σ] {env : Env} {w₀ w : World σ} {es : List (Event σ)}
    (h₀ : w₀.Initial) (hsafe : Along (step env) SafeWrite w₀ es)
    (hb : Throughout (step env) Bounded w₀ es) (hrun : run (step env) w₀ es = .ok w) : Exact w :=
  run_invariant_along (fun _ _ w' h hC hs => step_exact h hC.1 (hC.2 w' hs) hs) (initial_exact h₀)
    (hsafe.and hb.along) hrun

end World

end RotaLb
