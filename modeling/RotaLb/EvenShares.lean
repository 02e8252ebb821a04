import RotaLb.Accounting
import RotaLb.FixedPool
import RotaLb.IndexSafety

/-!
# Even Shares

Two strategies spread the dials of a fixed pool evenly, each for its own reason. `RoundRobin`
goes round the pool, from whatever cursor a pool of another size has left it: its picks are the
`rounds` of `Apportion`. `LeastConnections` picks a backend with the fewest connections, and a
dial is counted in the same critical section as it is picked, so as long as nothing takes a
connection off a count the counts of connections are the counts of its picks.

A count of connections is a `u32` that wraps: with more than `2 ^ 32 - 1` dials for each backend
the counts say nothing any more (`counts_wrap`).

## Main results

* `RoundRobin.trace_rounds`: the picks of `RoundRobin` on pools of one size.
* `round_robin_even`: **round-robin is fair from any state**, for the strategy on its own and
  for a balancer over every interleaving of dials.
* `least_connections_even`: **least-connections keeps the pool balanced**.
-/

namespace RotaLb

open Rust Scan StepSystem Apportion

/-! ### Round-robin -/

/-- Any number of picks on pools of one size goes round from the cursor. -/
theorem RoundRobin.trace_rounds (s : RoundRobin) {n : ℕ} (hn : 0 < n) {views : List PoolView}
    (hviews : ∀ v ∈ views, v.len = n) :
    ∃ outs s', trace RoundRobin.pick s views = .ok (outs, s') ∧ outs.length = views.length ∧
      (∀ i ∈ outs, i < n) ∧ (fun i => 0 + outs.count i) = rounds s.next n outs.length ∧
      s'.next % n = (s.next + outs.length) % n := by
  refine trace_rule (I := fun (outs : List ℕ) (s' : RoundRobin) => (∀ i ∈ outs, i < n) ∧
    (fun i => 0 + outs.count i) = rounds s.next n outs.length ∧
    s'.next % n = (s.next + outs.length) % n) ⟨by simp, rfl, rfl⟩ ?_
  rintro outs s' view hview - ⟨hrange, hcount, hnext⟩
  have hlen : view.len = n := hviews view hview
  refine ⟨_, _, s'.pick_ok (hlen ▸ hn), ?_, ?_, ?_⟩
  · intro i hi
    rcases List.mem_append.mp hi with hi | hi
    · exact hrange i hi
    · rw [List.mem_singleton.mp hi, hlen]
      exact Nat.mod_lt _ hn
  · rw [← serve_add_count, hcount, hlen, hnext, List.length_append]
    exact (rounds_succ s.next n outs.length).symm
  · rw [hlen, Nat.mod_add_mod, List.length_append, List.length_singleton, ← Nat.add_assoc,
      Nat.add_mod, hnext, ← Nat.add_mod]

namespace World

variable {env : Env}

/-- The dials `p` go round `n` slots from slot `c`, and the cursor stands at the next one. -/
def Rotating (c n : ℕ) (p : ℕ → ℕ) (w : World Builtin) : Prop :=
  ∃ s, w.lb.strategy = .roundRobin s ∧ p = rounds c n (∑ i ∈ Finset.range n, p i) ∧
    s.next % n = (c + ∑ i ∈ Finset.range n, p i) % n

/-- A routed dial goes to the slot under the cursor. -/
theorem Rotating.routed {c : ℕ} {w w' : World Builtin} {p : ℕ → ℕ} {idx : ℕ}
    (h : Rotating c w.lb.metrics.length p w) (hidx : RoutedTo env idx w w') :
    Rotating c w.lb.metrics.length (serve p idx) w' := by
  obtain ⟨s, hs, hp, hnext⟩ := h
  obtain ⟨addr, draw, hpick⟩ := hidx.pick
  have hview : 0 < PoolView.len ⟨addr, w.lb.metrics⟩ := Nat.zero_lt_of_lt hidx.lt
  rw [hs] at hpick
  obtain ⟨⟨i, s'⟩, hi, hret⟩ := bind_eq_ok.mp hpick
  cases hi.symm.trans (s.pick_ok hview)
  obtain ⟨rfl, hstrategy⟩ := Prod.mk.inj (Except.ok.inj hret)
  have hsum := sum_serve (p := p) hidx.lt
  have hlen : PoolView.len ⟨addr, w.lb.metrics⟩ = w.lb.metrics.length := rfl
  refine ⟨_, hstrategy.symm, ?_, ?_⟩
  · rw [hsum, rounds_succ, ← hp, ← hnext, hlen]
  · rw [hsum, ← Nat.add_assoc, hlen, Nat.mod_add_mod, Nat.add_mod, hnext, ← Nat.add_mod]

/-- **The dials of a balancer with a fixed pool and round-robin** go round from the cursor. -/
theorem run_rotating {w₀ w : World Builtin} {s : RoundRobin} {es : List (Event Builtin)}
    (hsync : Sync w₀) (hs : w₀.lb.strategy = .roundRobin s) (hrun : run (step env) w₀ es = .ok w)
    (hpool : Throughout (step env) (fun w => w.tags = w₀.tags) w₀ es)
    (hset : ∀ e ∈ es, ∀ strategy, e ≠ .setStrategy strategy) :
    Counted w₀ (rounds s.next w₀.lb.metrics.length (count (step env) reachesStrategy w₀ es)) w ∧
      ∑ i ∈ Finset.range w₀.lb.metrics.length, rounds s.next w₀.lb.metrics.length
        (count (step env) reachesStrategy w₀ es) i = count (step env) reachesStrategy w₀ es := by
  have hzero : Rotating s.next w₀.lb.metrics.length (fun _ => 0) w₀ :=
    ⟨s, hs, by rw [Finset.sum_const_zero]; rfl, by rw [Finset.sum_const_zero]; rfl⟩
  have hlast := run_counted hsync hzero ?_ ?_ hrun hpool (along_of_forall hset) le_rfl
  · obtain ⟨p, hcounted, ⟨-, -, hp, -⟩, hsum⟩ := hlast
    rw [hsum] at hp
    subst hp
    exact ⟨hcounted, hsum⟩
  · intro p w w' idx hcounted hrot _ hidx
    rw [← hcounted.length] at hrot ⊢
    exact hrot.routed hidx
  · rintro p w e w' - ⟨s', hs', hp, hnext⟩ hset - hother
    refine ⟨s', ?_, hp, hnext⟩
    have hheard := hother.heard hset
    rw [hs'] at hheard
    exact hheard.eq_of_deaf (fun _ => rfl) fun _ => rfl

end World

/-- **Round-robin is fair from any state.**

* From every cursor, the next picks on pools of size `n` return indices whose numbers differ by
  at most 1, and the next `n` of them each index exactly once.
* In a balancer with a fixed pool, from every reachable state, over every interleaving and with
  any outcomes, the numbers of dials counted since in the slots differ by at most 1.
* After an `add_backend`, the next `n` dials that reach the strategy, `n` being the new size,
  bring the new backend exactly one. -/
theorem round_robin_even :
    (∀ (s : RoundRobin) (n : ℕ) (views : List PoolView), 0 < n → (∀ v ∈ views, v.len = n) →
      ∃ outs s', trace RoundRobin.pick s views = .ok (outs, s') ∧
        outs.length = views.length ∧ (∀ i ∈ outs, i < n) ∧
        (∀ i < n, ∀ j < n, outs.count i ≤ outs.count j + 1) ∧
        (views.length = n → ∀ i < n, outs.count i = 1)) ∧
    (∀ (env : Env) (w₀ w : World Builtin) (s : RoundRobin) (es : List (Event Builtin)),
      Reaches (World.step env) World.Initial w₀ → w₀.lb.strategy = .roundRobin s →
      run (World.step env) w₀ es = .ok w →
      Throughout (World.step env) (fun w => w.tags = w₀.tags) w₀ es →
      (∀ e ∈ es, ∀ strategy, e ≠ .setStrategy strategy) →
      ∃ p : ℕ → ℕ,
        (∀ (i : ℕ) (m₀ : TunnelMetrics), w₀.lb.metrics[i]? = some m₀ →
          ∃ m, w.lb.metrics[i]? = some m ∧ m.totalDials = m₀.totalDials + UInt64.ofNat (p i)) ∧
        ∑ i ∈ Finset.range w₀.lb.metrics.length, p i =
          count (World.step env) World.reachesStrategy w₀ es ∧
        ∀ i < w₀.lb.metrics.length, ∀ j < w₀.lb.metrics.length, p i ≤ p j + 1) ∧
    (∀ (env : Env) (w₀ w₁ w : World Builtin) (s : RoundRobin) (ptr : ℕ)
      (es : List (Event Builtin)),
      Reaches (World.step env) World.Initial w₀ → w₀.lb.strategy = .roundRobin s →
      w₀.step env (.addBackend ptr) = .ok w₁ → run (World.step env) w₁ es = .ok w →
      Throughout (World.step env) (fun w => w.tags = w₁.tags) w₁ es →
      (∀ e ∈ es, ∀ strategy, e ≠ .setStrategy strategy) →
      count (World.step env) World.reachesStrategy w₁ es = w₁.lb.backends.length →
      ∃ m, w.lb.metrics[w₀.lb.backends.length]? = some m ∧ m.totalDials = 1) := by
  refine ⟨fun s n views hn hviews => ?_, fun env w₀ w s es hreach hs hrun hpool hset => ?_, ?_⟩
  · obtain ⟨outs, s', htrace, hlen, hrange, hcount, -⟩ := s.trace_rounds hn hviews
    have hcount : ∀ i, outs.count i = rounds s.next n outs.length i := fun i =>
      (Nat.zero_add _).symm.trans (congrFun hcount i)
    refine ⟨outs, s', htrace, hlen, hrange, fun i hi j hj => ?_, fun hm i hi => ?_⟩
    · rw [hcount, hcount]
      exact even_rounds s.next n outs.length i hi j hj
    · rw [hcount, hlen, hm]
      exact rounds_self s.next hi
  · obtain ⟨hcounted, hsum⟩ := World.run_rotating (World.reaches_sync hreach) hs hrun hpool hset
    exact ⟨_, fun i m₀ hm₀ => hcounted.totalDials hm₀, hsum, even_rounds _ _ _⟩
  · intro env w₀ w₁ w s ptr es hreach hs hadd hrun hpool hset hcount
    have hsync := World.reaches_sync hreach
    have hsync₁ := World.step_sync hsync hadd
    obtain ⟨-, hw₁⟩ := World.exclusive_eq_ok hadd
    obtain ⟨hb₁, -, hm₁⟩ := hsync₁.length
    obtain ⟨hb, -, hm⟩ := hsync.length
    cases hw₁
    -- the new backend stands in the last slot, with fresh metrics
    have hnew : (w₀.lb.metrics ++ [default])[w₀.lb.backends.length]? = some default := by
      rw [hb, ← hm]
      exact List.getElem?_concat_length
    obtain ⟨hcounted, -⟩ := World.run_rotating hsync₁ hs hrun hpool hset
    obtain ⟨m, hget, hdials⟩ := hcounted.totalDials hnew
    refine ⟨m, hget, ?_⟩
    have hlt : w₀.lb.backends.length < (w₀.lb.metrics ++ [default]).length := by
      rw [List.length_append, hm, ← hb]
      exact Nat.lt_succ_self _
    rw [hdials, hcount, hb₁, ← hm₁]
    exact congrArg (fun k => 0 + UInt64.ofNat k) (rounds_self s.next hlt)

/-- Three picks on three backends from a cursor that a larger pool has left behind, three dials
of a pair, one of which failed, and a third backend that has its turn. -/
theorem round_robin_even_three :
    (∃ outs s', trace RoundRobin.pick ⟨5⟩ (List.replicate 3 (.blank 3)) = .ok (outs, s') ∧
      ∀ i < 3, outs.count i = 1) ∧
    (∃ w, run (World.step Env.plain) (World.ofSize 2 (Builtin.roundRobin ⟨5⟩))
        (Event.connecting 0 ++ Event.failing 0 ++ [.start "a:1" none none 0]) = .ok w ∧
      ∃ p : ℕ → ℕ, ∑ i ∈ Finset.range 2, p i = 3 ∧ p 0 ≤ p 1 + 1 ∧ p 1 ≤ p 0 + 1) ∧
    ∃ w₁ w, (World.ofSize 2 (Builtin.roundRobin ⟨5⟩)).step Env.plain (.addBackend 9) = .ok w₁ ∧
      run (World.step Env.plain) w₁ (List.replicate 3 (.start "a:1" none none 0)) = .ok w ∧
      ∃ m, w.lb.metrics[2]? = some m ∧ m.totalDials = 1 := by
  obtain ⟨hpicks, hdials, hadded⟩ := round_robin_even
  have hreach : Reaches (World.step Env.plain) World.Initial
      (World.ofSize 2 (Builtin.roundRobin ⟨5⟩)) := ⟨_, [], World.initial_ofSize Nat.two_pos _, rfl⟩
  refine ⟨?_, ?_, ?_⟩
  · obtain ⟨outs, s', htrace, -, -, -, honce⟩ := hpicks ⟨5⟩ 3 (List.replicate 3 (.blank 3))
      (by decide) fun v hv => by rw [List.eq_of_mem_replicate hv]; rfl
    exact ⟨outs, s', htrace, honce rfl⟩
  · have hends : ends (World.step Env.plain) (fun _ => true)
        (World.ofSize 2 (Builtin.roundRobin ⟨5⟩))
        (Event.connecting 0 ++ Event.failing 0 ++ [.start "a:1" none none 0]) = true := by decide
    obtain ⟨w, hrun, -⟩ := exists_run_of_ends hends
    obtain ⟨p, -, hsum, heven⟩ := hdials Env.plain _ w ⟨5⟩ _ hreach rfl hrun (by decide)
      (by simp [Event.connecting, Event.failing])
    exact ⟨w, hrun, p, hsum.trans (by decide), heven 0 (by decide) 1 (by decide),
      heven 1 (by decide) 0 (by decide)⟩
  · have hends : ends (World.step Env.plain) (fun _ => true)
        (World.ofSize 2 (Builtin.roundRobin ⟨5⟩))
        (.addBackend 9 :: List.replicate 3 (.start "a:1" none none 0)) = true := by decide
    obtain ⟨w, hrun, -⟩ := exists_run_of_ends hends
    obtain ⟨w₁, hadd, hrun⟩ := run_cons_eq_ok.mp hrun
    refine ⟨w₁, w, hadd, hrun, ?_⟩
    have hadd' := hadd
    cases hadd'
    exact hadded Env.plain _ _ w ⟨5⟩ 9 _ hreach rfl hadd hrun (by decide)
      (fun e he => by rw [List.eq_of_mem_replicate he]; nofun) (by decide)

/-! ### Least connections -/

namespace World

variable {env : Env}

/-- The event records a failed dial or drops a connection. -/
def sheds {σ : Type} (w : World σ) : Event σ → Bool
  | .lockMetrics k =>
    match w.dials[k]?.map Dial.phase with
    | some (.errorMetrics _) => true
    | _ => false
  | .drop _ | .dropCheck _ | .dropWrite .. => true
  | _ => false

/-- The counts of connections, slot by slot. -/
def actives {σ : Type} (w : World σ) : List ℕ :=
  w.lb.metrics.map fun m => m.activeConnections.toNat

/-- Only a failed dial or a dropped connection takes a connection off a count, and only a
routed dial adds one, in a pool that stays the same. -/
theorem actives_of_other {σ : Type} [BalanceStrategy σ] {w w' : World σ} {e : Event σ}
    (hs : w.step env e = .ok w') (hother : Other w e w') (hsheds : w.sheds e = false)
    (hsync : Sync w) : w'.actives = w.actives := by
  cases step_effect hs with
  | routed => exact absurd rfl (hother.start _ _ _ _)
  | idle | moved | connected | returned | cancelled | strategySet => rfl
  | succeeded => exact counts_modify_of_eq fun _ => rfl
  | errored hd hphase => simp [sheds, hd, hphase] at hsheds
  | dropped | checked | written | contended => cases hsheds
  | stale he => rcases he with rfl | rfl <;> cases hsheds
  | drained | undrained => exact counts_modify_of_eq fun _ => rfl
  | entered => exact absurd hother.tags tags_added_ne
  | left _ _ hb => exact absurd hother.tags (tags_afterLeave_ne hb)
  | replaced _ hne => exact absurd hother.tags (tags_afterReplace_ne hsync hne _)

/-- The dials `p` are the counts of connections of `n` slots, and they are even. -/
structure Level (n : ℕ) (p : ℕ → ℕ) (w : World Builtin) : Prop where
  strategy : w.lb.strategy = .leastConnections
  counts : ∀ (i a : ℕ), w.actives[i]? = some a → a = p i
  even : Even p n

/-- The slot picked has the fewest connections. -/
theorem Level.picked_le {n : ℕ} {p : ℕ → ℕ} {w w' : World Builtin} {idx : ℕ} (h : Level n p w)
    (hlen : w.lb.metrics.length = n) (hidx : RoutedTo env idx w w') : ∀ j < n, p idx ≤ p j := by
  obtain ⟨addr, draw, hpick⟩ := hidx.pick
  have hview : 0 < PoolView.len ⟨addr, w.lb.metrics⟩ := Nat.zero_lt_of_lt hidx.lt
  obtain ⟨i, hi, hmin⟩ := LeastConnections.pick_isFirstMin hview
  rw [h.strategy] at hpick
  obtain ⟨i', hi', hret⟩ := bind_eq_ok.mp hpick
  cases hi'.symm.trans hi
  obtain ⟨rfl, -⟩ := Prod.mk.inj (Except.ok.inj hret)
  have hcount : ∀ {k : ℕ} {m : TunnelMetrics}, w.lb.metrics[k]? = some m →
      m.activeConnections.toNat = p k := fun hm =>
    h.counts _ _ (by rw [actives, List.getElem?_map, hm]; rfl)
  intro j hj
  have hj' : j < w.lb.metrics.length := hlen ▸ hj
  have hmi := List.getElem?_eq_getElem hidx.lt
  have hmj := List.getElem?_eq_getElem hj'
  have hle := hmin.le j hj'
  rw [keyAt_of_getElem? hmi, keyAt_of_getElem? hmj] at hle
  rw [← hcount hmi, ← hcount hmj]
  exact Prod.Lex.monotone_fst _ _ hle

/-- A routed dial is one more connection of its slot. -/
theorem Level.routed {n : ℕ} {p : ℕ → ℕ} {w w' : World Builtin} {idx : ℕ} (h : Level n p w)
    (hlen : w.lb.metrics.length = n) (hidx : RoutedTo env idx w w')
    (hstrategy : w'.lb.strategy = .leastConnections)
    (hfits : ∑ i ∈ Finset.range n, p i < n * (2 ^ 32 - 1)) : Level n (serve p idx) w' := by
  have hleast := h.picked_le hlen hidx
  have hlt := lt_of_sum_lt hleast hfits
  refine ⟨hstrategy, fun i a ha => ?_, h.even.serve hleast⟩
  rw [actives, hidx.metrics, List.getElem?_map, List.getElem?_modify] at ha
  by_cases hi : i = idx
  · subst hi
    obtain ⟨m, hm⟩ : ∃ m, w.lb.metrics[i]? = some m := ⟨_, List.getElem?_eq_getElem hidx.lt⟩
    have hcount : m.activeConnections.toNat = p i :=
      h.counts i _ (by rw [actives, List.getElem?_map, hm]; rfl)
    simp only [hm, if_true, Option.map_eq_map, Option.map_some, Option.some.injEq] at ha
    rw [serve_self, ← ha, ← hcount]
    exact toNat_add_one (ne_max_of_toNat_lt (by omega))
  · rw [serve_of_ne hi]
    exact h.counts i a (by simpa [actives, Ne.symm hi] using ha)

/-- **Least-connections keeps the pool balanced.** In a balancer with `LeastConnections`, a fixed
pool and no connections counted at the beginning, over every interleaving of at most `2 ^ 32 - 1`
dials for each backend in which no failure is recorded and no connection is dropped, no two counts
of connections differ by more than 1, and they add up to the number of dials started. -/
theorem least_connections_even {w₀ w : World Builtin} {es : List (Event Builtin)}
    (hreach : Reaches (step env) Initial w₀) (hstrategy : w₀.lb.strategy = .leastConnections)
    (hzero : ∀ a ∈ w₀.actives, a = 0) (hrun : run (step env) w₀ es = .ok w)
    (hpool : Throughout (step env) (fun w => w.tags = w₀.tags) w₀ es)
    (hset : ∀ e ∈ es, ∀ strategy, e ≠ .setStrategy strategy)
    (hsheds : Along (step env) (fun w e => w.sheds e = false) w₀ es)
    (hfits : count (step env) reachesStrategy w₀ es ≤ w₀.lb.metrics.length * (2 ^ 32 - 1)) :
    (∀ a ∈ w.actives, ∀ b ∈ w.actives, a ≤ b + 1) ∧
      w.actives.sum = count (step env) reachesStrategy w₀ es := by
  have hlevel : Level w₀.lb.metrics.length (fun _ => 0) w₀ :=
    ⟨hstrategy, fun i a ha => hzero a (List.mem_of_getElem? ha), even_zero⟩
  have hlast := run_counted (reaches_sync hreach) hlevel ?_ ?_ hrun hpool
    ((along_of_forall hset).and hsheds) hfits
  · obtain ⟨p, hcounted, hlevel, hsum⟩ := hlast
    have hlen : w.actives.length = w₀.lb.metrics.length :=
      (List.length_map _).trans hcounted.length
    constructor
    · intro a ha b hb
      obtain ⟨i, hi, rfl⟩ := List.getElem_of_mem ha
      obtain ⟨j, hj, rfl⟩ := List.getElem_of_mem hb
      rw [hlevel.counts i _ (List.getElem?_eq_getElem hi),
        hlevel.counts j _ (List.getElem?_eq_getElem hj)]
      exact hlevel.even i (hlen ▸ hi) j (hlen ▸ hj)
    · rw [← hsum, ← sum_getD, hlen]
      refine Finset.sum_congr rfl fun i hi => ?_
      have hi' : i < w.actives.length := hlen.symm ▸ Finset.mem_range.mp hi
      rw [List.getD_eq_getElem?_getD, List.getElem?_eq_getElem hi', Option.getD_some]
      exact hlevel.counts i _ (List.getElem?_eq_getElem hi')
  · intro p w w' idx hcounted hlevel hlt hidx
    refine hlevel.routed hcounted.length hidx ?_ hlt
    obtain ⟨addr, draw, hpick⟩ := hidx.pick
    rw [hlevel.strategy] at hpick
    obtain ⟨i, -, hret⟩ := bind_eq_ok.mp hpick
    exact (Prod.mk.inj (Except.ok.inj hret)).2.symm
  · rintro p w e w' hcounted hlevel ⟨hset, hsheds⟩ hs hother
    refine ⟨?_, ?_, hlevel.even⟩
    · have hheard := hother.heard hset
      rw [hlevel.strategy] at hheard
      exact hheard.eq_of_deaf (fun _ => rfl) fun _ => rfl
    · rw [actives_of_other hs hother hsheds hcounted.sync]
      exact hlevel.counts

/-- Backends at 5 ms, at an unknown distance and at 9 ms. -/
def spreadSeeds : List TunnelMetrics :=
  [{ rtt := some (.fromMillis 5) }, {}, { rtt := some (.fromMillis 9) }]

/-- Four dials, the second started before the first is connected. -/
def spreadRun : List (Event Builtin) :=
  .start "a:1" none none 0 :: Event.connecting 1 ++ Event.connecting 1 ++
    [.start "a:1" none none 0]

theorem least_connections_even_spreadRun :
    ∃ w, run (step Env.plain) (ofSeeds spreadSeeds .leastConnections) spreadRun = .ok w ∧
      (∀ a ∈ w.actives, ∀ b ∈ w.actives, a ≤ b + 1) ∧ w.actives.sum = 4 := by
  have hends : ends (step Env.plain) (fun _ => true) (ofSeeds spreadSeeds .leastConnections)
      spreadRun = true := by decide
  obtain ⟨w, hrun, -⟩ := exists_run_of_ends hends
  have hreach : Reaches (step Env.plain) Initial
      (ofSeeds spreadSeeds Builtin.leastConnections) :=
    ⟨_, [], initial_ofSeeds (by decide) _, rfl⟩
  obtain ⟨heven, hsum⟩ := least_connections_even hreach rfl (by decide) hrun (by decide)
    (by simp [spreadRun, Event.connecting]) (by decide) (by decide)
  exact ⟨w, hrun, heven, hsum.trans (by decide)⟩

/-- A balancer with one backend and `LeastConnections` counts all dials there. -/
theorem run_lone (env : Env) {w : World Builtin} {b : Backend} {m : TunnelMetrics}
    (hsteady : Steady w) (hstrategy : w.lb.strategy = .leastConnections) (hb : w.lb.backends = [b])
    (hm : w.lb.metrics = [m]) (k : ℕ) :
    ∃ w' m', run (step env) w (List.replicate k (.start "a:1" none none 0)) = .ok w' ∧
      w'.lb.metrics = [m'] ∧ m'.activeConnections = m.activeConnections + UInt32.ofNat k ∧
      count (step env) reachesStrategy w (List.replicate k (.start "a:1" none none 0)) = k := by
  induction k generalizing w m with
  | zero => exact ⟨w, m, rfl, hm, by simp, rfl⟩
  | succ k ih =>
      have hpick : BalanceStrategy.pick env 0 w.lb.strategy ⟨"a:1", w.lb.metrics⟩ =
          .ok (0, .leastConnections) := by
        have hpos : 0 < PoolView.len ⟨"a:1", [m]⟩ := Nat.one_pos
        obtain ⟨i, hi, hmin⟩ := LeastConnections.pick_isFirstMin hpos
        obtain rfl : i = 0 := Nat.lt_one_iff.mp hmin.lt
        rw [hstrategy, hm]
        exact bind_eq_ok.mpr ⟨0, hi, rfl⟩
      have haddr : validateDialAddr "a:1" = .ok () := by decide
      have hlt : 0 < w.lb.metrics.length := by rw [hm]; exact Nat.one_pos
      obtain ⟨-, d, -, -, hs⟩ := step_start_picked hsteady haddr hpick hlt none none
      have hroute : (w.afterRoute 0 .leastConnections d).lb.metrics =
          [LoadBalancer.countDial m] := by
        rw [afterRoute, hm]
        rfl
      have hsteady' := step_steady hsteady (by trivial) hs
      obtain ⟨w', m', hrun, hm', hactive, hcount⟩ := ih hsteady' rfl hb hroute
      refine ⟨w', m', run_cons_eq_ok.mpr ⟨_, hs, hrun⟩, hm', ?_, ?_⟩
      · rw [hactive, LoadBalancer.countDial, UInt32.ofNat_add, UInt32.add_assoc, UInt32.add_comm 1]
        rfl
      · have hreaches : w.reachesStrategy (.start "a:1" none none 0) = true := by
          simp [reachesStrategy, haddr, hb, Except.isOk, Except.toBool]
        rw [List.replicate_succ, count, hs]
        simp only [hreaches, if_true, hcount]
        exact Nat.add_comm 1 k

/-- With `2 ^ 32` dials in progress the only backend counts no connection at all. -/
theorem counts_wrap :
    ∃ w, run (step Env.plain) (ofSize 1 Builtin.leastConnections)
        (List.replicate (2 ^ 32) (.start "a:1" none none 0)) = .ok w ∧
      count (step Env.plain) reachesStrategy (ofSize 1 Builtin.leastConnections)
        (List.replicate (2 ^ 32) (.start "a:1" none none 0)) = 2 ^ 32 ∧
      w.actives.sum = 0 := by
  have hsteady : Steady (ofSize 1 Builtin.leastConnections) :=
    initial_steady (initial_ofSize Nat.one_pos _) trivial
  obtain ⟨w, m, hrun, hm, hactive, hcount⟩ :=
    run_lone Env.plain hsteady rfl rfl rfl (2 ^ 32)
  refine ⟨w, hrun, hcount, ?_⟩
  have hzero : m.activeConnections.toNat = 0 := by
    rw [hactive]
    rfl
  rw [actives, hm, List.map_singleton, hzero]
  rfl

end World

end RotaLb
