import RotaLb.EvenShares

/-!
# The Peak of Least-Connections

`RotaLb.EvenShares` shows that least-connections keeps the counts within one of each other as
long as nothing takes a connection off a count. With failures, drops and backends that come and
go the counts drift apart, by any amount: what is left is a bound on the highest of them. A dial
goes to a lowest count, and the lowest of `n` counts is below `b` while they add up to less than
`n * b`, so no count is ever raised above `b`. Every other event lowers counts, takes them away or
brings new ones that are 0.

Nothing is assumed about the run: guards may be stale or misdirected, dials may be cancelled, and
a count that wraps starts over at 0.

## Main results

* `step_actives`: only a dial raises a count, and only the count of the slot it is routed to.
* `least_connections_peak`: **the highest count of a least-connections balancer**, in every run.
-/

namespace RotaLb

open Rust Scan StepSystem Apportion

namespace World

/-- Every count of the second list is 0 or at most some count of the first. -/
def Sinks (before after : List ℕ) : Prop := ∀ a' ∈ after, a' = 0 ∨ ∃ a ∈ before, a' ≤ a

theorem Sinks.of_subset {before after : List ℕ} (h : after ⊆ before) : Sinks before after :=
  fun a' ha' => .inr ⟨a', h ha', le_rfl⟩

/-- A bound on the counts is one on what they have sunk to. -/
theorem Sinks.forall_le {before after : List ℕ} (h : Sinks before after) {b : ℕ}
    (hb : ∀ a ∈ before, a ≤ b) : ∀ a' ∈ after, a' ≤ b := by
  intro a' ha'
  rcases h a' ha' with rfl | ⟨a, ha, hle⟩
  · exact Nat.zero_le b
  · exact hle.trans (hb a ha)

section Steps

variable {σ : Type} {w : World σ}

/-- Rewriting a slot without raising its count. -/
theorem sinks_modify {ms : List TunnelMetrics} (i : ℕ) {f : TunnelMetrics → TunnelMetrics}
    (hf : ∀ m, (f m).activeConnections.toNat ≤ m.activeConnections.toNat) :
    Sinks (ms.map fun m => m.activeConnections.toNat)
      ((ms.modify i f).map fun m => m.activeConnections.toNat) := by
  intro a' ha'
  obtain ⟨m', hm', rfl⟩ := List.mem_map.mp ha'
  obtain ⟨j, hj⟩ := List.mem_iff_getElem?.mp hm'
  rw [List.getElem?_modify] at hj
  obtain ⟨m, hm, rfl⟩ := Option.map_eq_some_iff.mp hj
  refine .inr ⟨_, List.mem_map_of_mem (List.mem_of_getElem? hm), ?_⟩
  split
  · exact hf m
  · exact le_rfl

/-- The second half of a drop lowers a count, if any. -/
theorem sinks_settle (base : World σ) (g : ActiveConnectionGuard) (owner : ℕ) :
    Sinks base.actives (base.settle g owner).actives := by
  refine sinks_modify g.index fun m => ?_
  rw [LoadBalancer.recordDrop, toNat_saturatingDec]
  exact Nat.sub_le _ 1

/-- **Only a dial raises a count**, and only the count of the slot it is routed to. -/
theorem step_actives [BalanceStrategy σ] {env : Env} {w' : World σ} {e : Event σ}
    (hs : w.step env e = .ok w') :
    (∃ idx, RoutedTo env idx w w') ∨ Sinks w.actives w'.actives := by
  cases step_effect hs with
  | @routed _ _ _ _ idx _ _ _ _ hpick _ hm =>
      exact .inl ⟨idx, ⟨_, _, hpick⟩, hm, rfl⟩
  | idle | moved | connected | returned | cancelled | stale | checked | contended | strategySet =>
      exact .inr (.of_subset (List.Subset.refl _))
  | succeeded | drained | undrained => exact .inr (sinks_modify _ fun m => le_rfl)
  | errored =>
      refine .inr (sinks_modify _ fun m => ?_)
      rw [LoadBalancer.recordError, toNat_saturatingDec]
      exact Nat.sub_le _ 1
  | @dropped _ h => exact .inr (sinks_settle { w with guards := _ } h.guard h.owner)
  | @written _ p => exact .inr (sinks_settle { w with drops := _ } p.guard p.owner)
  | entered =>
      refine .inr fun a' ha' => ?_
      rw [actives, added, LoadBalancer.pushBackend, List.map_append, List.mem_append] at ha'
      rcases ha' with ha' | ha'
      · exact .inr ⟨a', ha', le_rfl⟩
      · exact .inl (List.mem_singleton.mp ha')
  | left =>
      refine .inr (.of_subset fun a' ha' => ?_)
      rw [actives, afterLeave, ← List.eraseIdx_map] at ha'
      exact List.mem_of_mem_eraseIdx ha'
  | replaced =>
      refine .inr fun a' ha' => .inl ?_
      rw [actives, afterReplace, List.map_replicate] at ha'
      exact List.eq_of_mem_replicate ha'

end Steps

variable {env : Env} {w w' : World Builtin} {idx : ℕ}

/-- `LeastConnections` routes to a slot with the fewest connections. -/
theorem RoutedTo.least (hidx : RoutedTo env idx w w')
    (hstrategy : w.lb.strategy = .leastConnections) :
    ∀ j < w.actives.length, w.actives.getD idx 0 ≤ w.actives.getD j 0 := by
  obtain ⟨addr, draw, hpick⟩ := hidx.pick
  have hview : 0 < PoolView.len ⟨addr, w.lb.metrics⟩ := Nat.zero_lt_of_lt hidx.lt
  obtain ⟨i, hi, hmin⟩ := LeastConnections.pick_isFirstMin hview
  rw [hstrategy] at hpick
  obtain ⟨i', hi', hret⟩ := bind_eq_ok.mp hpick
  cases hi'.symm.trans hi
  obtain ⟨rfl, -⟩ := Prod.mk.inj (Except.ok.inj hret)
  intro j hj
  have hlt := hidx.lt
  have hj' : j < w.lb.metrics.length := by simpa [actives] using hj
  have hle := hmin.le j hj'
  rw [keyAt_of_getElem? (List.getElem?_eq_getElem hlt),
    keyAt_of_getElem? (List.getElem?_eq_getElem hj')] at hle
  have hcounts : w.lb.metrics[i].activeConnections.toNat ≤
      w.lb.metrics[j].activeConnections.toNat := Prod.Lex.monotone_fst _ _ hle
  simpa [actives, hlt, hj'] using hcounts

/-- A dial raises the count of its slot by one, or wraps it to 0. -/
theorem RoutedTo.actives (hidx : RoutedTo env idx w w') :
    w'.actives = w.actives.modify idx fun a => (a + 1) % 2 ^ 32 := by
  rw [World.actives, hidx.metrics]
  refine Keyed.map_modify_of_comm fun m => ?_
  rw [LoadBalancer.countDial, UInt32.toNat_add]
  rfl

/-- A count raised by a dial that leaves the sum at `n * b` or below is at most `b`. -/
theorem RoutedTo.forall_le {n b : ℕ} (hidx : RoutedTo env idx w w')
    (hstrategy : w.lb.strategy = .leastConnections) (hn : n ≤ w.lb.metrics.length)
    (hsum : w'.actives.sum ≤ n * b) (hb : ∀ a ∈ w.actives, a ≤ b) : ∀ a ∈ w'.actives, a ≤ b := by
  have hlen : w.actives.length = w.lb.metrics.length := List.length_map _
  have hlt : idx < w.actives.length := hlen ▸ hidx.lt
  intro a ha
  rw [hidx.actives] at ha hsum
  obtain ⟨j, hj⟩ := List.mem_iff_getElem?.mp ha
  rw [List.getElem?_modify] at hj
  obtain ⟨a₀, ha₀, rfl⟩ := Option.map_eq_some_iff.mp hj
  split
  · rename_i heq
    subst heq
    have hget : w.actives[idx]? = some w.actives[idx] := List.getElem?_eq_getElem hlt
    obtain rfl := Option.some.inj (hget.symm.trans ha₀)
    by_cases hwrap : w.actives[idx] + 1 < 2 ^ 32
    · -- the counts added up to less than `n * b` before, so the lowest of them was below `b`
      have hgrow := Keyed.total_modify_add id (fun a => (a + 1) % 2 ^ 32) hget
      rw [id, id, Nat.mod_eq_of_lt hwrap] at hgrow
      change (w.actives.modify idx fun a => (a + 1) % 2 ^ 32).sum + _ = w.actives.sum + _ at hgrow
      have hmin : w.actives.getD idx 0 < b := by
        refine lt_of_sum_lt (p := fun i => w.actives.getD i 0) (n := w.actives.length)
          (hidx.least hstrategy) ?_
        rw [sum_getD]
        have : n * b ≤ w.actives.length * b := Nat.mul_le_mul_right b (hlen ▸ hn)
        omega
      rw [List.getD_eq_getElem?_getD, hget, Option.getD_some] at hmin
      exact (Nat.mod_le _ _).trans hmin
    · have hmax : w.actives[idx] + 1 = 2 ^ 32 := by
        have : w.actives[idx] < 2 ^ 32 := by
          simp only [World.actives, List.getElem_map]
          exact UInt32.toNat_lt _
        omega
      rw [hmax, Nat.mod_self]
      exact Nat.zero_le b
  · exact hb _ (List.mem_of_getElem? ha₀)

/-- **The peak of least-connections.** From a state with no count above `b`, as long as the pool
has at least `n` backends and the counts of connections add up to at most `n * b`, no count goes
above `b`: in every run, whatever fails, is dropped, is cancelled, and whichever backends come and
go. -/
theorem least_connections_peak {n b : ℕ} {w₀ : World Builtin} {es : List (Event Builtin)}
    (hstart : ∀ a ∈ w₀.actives, a ≤ b)
    (hpool : Throughout (step env) (fun w => w.lb.strategy = .leastConnections ∧
      n ≤ w.lb.metrics.length ∧ w.actives.sum ≤ n * b) w₀ es) :
    Throughout (step env) (fun w => ∀ a ∈ w.actives, a ≤ b) w₀ es := by
  refine throughout_invariant ?_ hstart (hpool.before.and hpool.along)
  rintro w e w' hb ⟨⟨hstrategy, hn, -⟩, hafter⟩ hs
  obtain ⟨-, -, hsum⟩ := hafter w' hs
  rcases step_actives hs with ⟨idx, hidx⟩ | hsinks
  · exact hidx.forall_le hstrategy hn hsum hb
  · exact hsinks.forall_le hb

/-- Three backends serve two dials and a third that is cancelled, the first of them is removed with
its connection, a dial fails on one of the others while the next goes on, and a backend is added. -/
def peakRun : List (Event Builtin) :=
  Event.connecting 0 ++ Event.connecting 0 ++ [.start "a:1" none none 0, .cancel 0,
    .removeBackend 0, .start "a:1" none none 0] ++ Event.failing 1 ++ [.drop 1, .cancel 0,
    .addBackend 7] ++ Event.connecting 0

theorem least_connections_peak_peakRun :
    (∃ w, run (step Env.plain) (ofSize 3 Builtin.leastConnections) peakRun = .ok w ∧
      w.actives = [2, 1, 1]) ∧
    Throughout (step Env.plain) (fun w => ∀ a ∈ w.actives, a ≤ 2)
      (ofSize 3 Builtin.leastConnections) peakRun := by
  refine ⟨?_, least_connections_peak (n := 2) (by decide) (by decide)⟩
  have hends : ends (step Env.plain) (fun w => decide (w.actives = [2, 1, 1]))
      (ofSize 3 Builtin.leastConnections) peakRun = true := by decide
  obtain ⟨w, hrun, hw⟩ := exists_run_of_ends hends
  exact ⟨w, hrun, of_decide_eq_true hw⟩

end World

end RotaLb
