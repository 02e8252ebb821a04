import Mathlib.Data.Finset.Card
import Mathlib.Data.Nat.Find
import Mathlib.Data.Nat.ModEq
import RotaLb.Dialing
import RotaLb.Pinning

/-!
# Failover as a Ring

In a pool of constant size the primary of `Failover` walks round the slots, one step for each
report of an error about the slot it stands at. Reports of other slots, which come from dials
that were routed before it moved, leave it there: a burst of failures of one backend is one step.

Dials one after the other, to backends of which some always succeed and the others always fail,
walk the primary to the next slot that succeeds, and there it stays.

## Main results

* `step_ring`: what one event does to the primary.
* `run_burst`: a burst of reports about one slot.
* `trace_ring`: a sequence of dials, one after the other.
* `failover_ring`: **failover as a ring**, over every interleaving.
-/

namespace RotaLb

open Rust StepSystem

/-- The event brings in no other strategy. -/
def Event.KeepsStrategy {σ : Type} : Event σ → Prop
  | .setStrategy _ | .replaceBackends _ (some _) => False
  | _ => True

/-- Where the primary goes at a report. -/
def Failover.moved (n primary : ℕ) (report : Option ℕ) : ℕ :=
  if report = some primary then (primary + 1) % n else primary

/-- A report to a `Failover` whose primary is a slot of the pool it has seen. -/
theorem Failover.reportError_moved {n primary : ℕ} (hlt : primary < n) (hsize : n ≤ 2 ^ 64)
    (idx : ℕ) :
    BalanceStrategy.reportError (Builtin.failover ⟨primary, n⟩) idx =
      .ok (.failover ⟨moved n primary (some idx), n⟩) := by
  by_cases hidx : idx = primary
  · have hreport := reportError_picked (s := ⟨primary, n⟩) (Nat.zero_lt_of_lt hlt) hsize
    rw [afterReport, if_pos hlt] at hreport
    rw [moved, if_pos (congrArg some hidx), hidx, ← hreport, Nat.mod_eq_of_lt hlt]
  · rw [moved, if_neg fun h => hidx (Option.some.inj h)]
    exact bind_eq_ok.mpr ⟨_, reportError_of_ne (s := ⟨primary, n⟩) hidx, rfl⟩

/-- The index a dial at the last await point of a failure is about to report. -/
def Dial.failedAt (d : Dial) : Option ℕ :=
  match d.phase with
  | .errorStrategy _ => some d.index
  | _ => none

namespace World

/-! ### One event -/

/-- The index the event reports an error about. -/
def reported {σ : Type} (w : World σ) : Event σ → Option ℕ
  | .lockStrategy k => w.dials[k]?.bind Dial.failedAt
  | _ => none

/-- The primary of a balancer with `Failover`. -/
def primary (w : World Builtin) : Option ℕ :=
  match w.lb.strategy with
  | .failover s => some s.primary
  | _ => none

/-- The primary is a slot of a pool of `n` backends, and as soon as there are dials the strategy
knows the size of the pool. -/
structure Ring (n p : ℕ) (w : World Builtin) : Prop where
  steady : Steady w
  size : w.lb.backends.length = n
  lt : p < n
  strategy : ∃ len, w.lb.strategy = .failover ⟨p, len⟩ ∧ (len = n ∨ w.dials = [])

theorem Ring.primary {n p : ℕ} {w : World Builtin} (h : Ring n p w) : w.primary = some p := by
  obtain ⟨len, hs, -⟩ := h.strategy
  rw [World.primary, hs]

/-- Only a dial that ends reports. -/
theorem reported_of_not_onTask {σ : Type} {w : World σ} {e : Event σ} (h : e.onTask = false) :
    w.reported e = none := by
  cases e <;> first | rfl | cases h

variable {env : Env} {n p : ℕ} {w w' : World Builtin}

/-- **What one event does to the primary.** -/
theorem step_ring {e : Event Builtin} (h : Ring n p w) (hsize : n ≤ 2 ^ 64)
    (he : e.KeepsStrategy) (hs : w.step env e = .ok w') (hn : w'.lb.backends.length = n) :
    Ring n (Failover.moved n p (w.reported e)) w' := by
  have hlawful : e.Lawful := by
    cases e with
    | setStrategy s => exact he.elim
    | replaceBackends ptrs strategy =>
        cases strategy with
        | none => exact fun s hs => nomatch hs
        | some s => exact he.elim
    | _ => trivial
  have hsteady := step_steady h.steady hlawful hs
  obtain ⟨len, hstrategy, hlen⟩ := h.strategy
  -- most events report nothing, leave the strategy alone and start no dial
  have hkeep : w.reported e = none → w'.lb.strategy = w.lb.strategy →
      (w.dials = [] → w'.dials = []) → Ring n (Failover.moved n p (w.reported e)) w' := by
    intro hnone hsame hdials
    rw [hnone]
    exact ⟨hsteady, hn, h.lt, len, hsame.trans hstrategy, hlen.imp_right hdials⟩
  have hlen_of : ∀ {k : ℕ} {d : Dial}, w.dials[k]? = some d → len = n := fun hd =>
    hlen.resolve_right fun hnil => by simp [hnil] at hd
  cases step_effect hs with
  | idle htask => exact hkeep (reported_of_not_onTask htask) rfl id
  | @routed addr _ _ draw _ _ _ _ _ hpick hb hm =>
      have hview : 0 < PoolView.len ⟨addr, w.lb.metrics⟩ := Nat.zero_lt_of_lt hm
      have hviewLen : PoolView.len ⟨addr, w.lb.metrics⟩ = n := h.steady.metrics.trans h.size
      rw [hstrategy, Failover.builtin_pick env draw _ _ hview, hviewLen] at hpick
      cases hpick
      exact ⟨hsteady, hn, h.lt, n, rfl, .inl rfl⟩
  | moved htask hd =>
      refine hkeep ?_ rfl fun hnil => by simp [hnil] at hd
      rcases htask with ⟨_, _, _, rfl⟩ | rfl <;> rfl
  | succeeded hd | errored hd => exact hkeep rfl rfl fun hnil => by simp [hnil] at hd
  | @connected k d _ hd hphase hreport =>
      refine hkeep ?_ (Except.ok.inj hreport).symm fun hnil => by simp [hnil] at hd
      rw [reported, hd, Option.bind_some, Dial.failedAt, hphase]
  | @returned k d err _ hd hphase hreport =>
      have hrep : w.reported (.lockStrategy k) = some d.index := by
        rw [reported, hd, Option.bind_some, Dial.failedAt, hphase]
      obtain rfl := hlen_of hd
      rw [hstrategy, Failover.reportError_moved h.lt hsize] at hreport
      cases hreport
      rw [hrep]
      refine ⟨hsteady, hn, ?_, _, rfl, .inl rfl⟩
      rw [Failover.moved]
      split
      · exact Nat.mod_lt _ (Nat.zero_lt_of_lt h.lt)
      · exact h.lt
  | cancelled => exact hkeep rfl rfl fun hnil => by rw [cancel, hnil]; rfl
  | dropped | checked | written | contended => exact hkeep rfl rfl id
  | stale htask => exact hkeep (by rcases htask with rfl | rfl <;> rfl) rfl id
  | entered hd htask =>
      exact hkeep (by rcases htask with ⟨rfl, -⟩ | ⟨_, rfl, -⟩ <;> rfl) rfl id
  | left hd htask => exact hkeep (by cases e <;> first | rfl | cases htask) rfl id
  | @replaced ptrs strategy =>
      cases strategy with
      | none => exact hkeep rfl rfl id
      | some s => exact he.elim
  | drained | undrained => exact hkeep rfl rfl id
  | strategySet => exact he.elim

/-- Only slots of the pool are reported. -/
theorem Ring.reported_lt {e : Event Builtin} {i : ℕ} (h : Ring n p w)
    (hi : w.reported e = some i) : i < n := by
  cases e with
  | lockStrategy k =>
      obtain ⟨d, hd, hfailed⟩ := Option.bind_eq_some_iff.mp hi
      have hindex : d.index = i := by
        rw [Dial.failedAt] at hfailed
        split at hfailed
        · exact Option.some.inj hfailed
        · cases hfailed
      exact hindex ▸ h.size ▸ h.steady.dials d (List.mem_of_getElem? hd)
  | _ => cases hi

/-! ### Whole runs -/

/-- The event keeps the strategy and the size of the pool. -/
def KeepsSize (env : Env) (n : ℕ) (w : World Builtin) (e : Event Builtin) : Prop :=
  e.KeepsStrategy ∧ ∀ w', w.step env e = .ok w' → w'.lb.backends.length = n

/-- The primary stays in the ring. -/
theorem run_ring {es : List (Event Builtin)} (h : Ring n p w) (hsize : n ≤ 2 ^ 64)
    (hkeeps : Along (step env) (KeepsSize env n) w es) (hrun : run (step env) w es = .ok w') :
    ∃ p', Ring n p' w' := by
  refine run_invariant_along (I := fun w => ∃ p, Ring n p w) ?_ ⟨p, h⟩ hkeeps hrun
  rintro w e w' ⟨p, h⟩ ⟨he, hn⟩ hs
  exact ⟨_, step_ring h hsize he hs (hn w' hs)⟩

/-- The event reports an error. -/
def reports {σ : Type} (w : World σ) (e : Event σ) : Bool := (w.reported e).isSome

/-- **A burst of reports about one slot**, where the primary stands, moves it one step at the
first of them. -/
theorem run_burst {es : List (Event Builtin)} (h : Ring n p w) (hsize : n ≤ 2 ^ 64) (hn : 2 ≤ n)
    (hkeeps : Along (step env) (KeepsSize env n) w es)
    (hburst : Along (step env) (fun w e => ∀ i, w.reported e = some i → i = p) w es)
    (hrun : run (step env) w es = .ok w') :
    Ring n (if count (step env) reports w es = 0 then p else (p + 1) % n) w' := by
  have hlast := run_count (n := 0) (q := reports)
    (R := fun k w => Ring n (if k = 0 then p else (p + 1) % n) w) ?_ h (hkeeps.and hburst) hrun
  · rwa [Nat.zero_add] at hlast
  · rintro k w e w' hring ⟨⟨he, hn'⟩, hrep⟩ hs
    have hnext := step_ring hring hsize he hs (hn' w' hs)
    cases hreport : w.reported e with
    | none =>
        rw [hreport] at hnext
        rw [reports, hreport]
        exact hnext
    | some i =>
        obtain rfl := hrep i hreport
        rw [hreport] at hnext
        rw [reports, hreport, Option.isSome_some, if_pos rfl, if_neg (Nat.succ_ne_zero k)]
        by_cases hk : k = 0
        · rw [if_pos hk, Failover.moved, if_pos rfl] at hnext
          exact hnext
        · have hne : some i ≠ some ((i + 1) % n) := fun heq =>
            Failover.succ_mod_ne hn h.lt (Option.some.inj heq).symm
          rw [if_neg hk, Failover.moved, if_neg hne] at hnext
          exact hnext

end World

/-! ### Dials one after the other -/

/-- A call of `dial_with_options`, with what its loop meets if the backend in a slot is picked. -/
structure Request where
  addr : String
  draw : ℕ
  dialTimeout : Option Duration
  retryPolicy : Option RetryPolicy
  rounds : ℕ → List Round

namespace LoadBalancer

variable {σ : Type}

/-- A whole dial: the slot it went to and whether it succeeded. -/
def dialRequest [BalanceStrategy σ] (env : Env) (lb : LoadBalancer σ) (r : Request) :
    Except Fault ((ℕ × Bool) × LoadBalancer σ) :=
  match lb.beginDial env r.draw r.addr with
  | .error panic => .error (.panic panic)
  | .ok (.refused _) => .error .disabled
  | .ok (.picked idx _ _ _) => do
    let out ← lb.dialWithOptions .release env r.draw r.addr r.dialTimeout r.retryPolicy
      (r.rounds idx)
    return ((idx, out.result.isOk), out.lb)

/-- The address is valid, and a dial to a slot ends, with success exactly in the slots of `H`. -/
def Answers (lb : LoadBalancer σ) (H : Finset ℕ) (r : Request) : Prop :=
  validateDialAddr r.addr = .ok () ∧ ∀ i < lb.backends.length, ∃ s result,
    lb.dialWithRetry .release i r.dialTimeout r.retryPolicy (r.rounds i) = .ok s ∧
      s.stage = .returned result ∧ (result.isOk = true ↔ i ∈ H)

/-- The part of the balancer that a dial does not change. -/
def SameSetup (lb lb' : LoadBalancer σ) : Prop :=
  lb'.backends = lb.backends ∧ lb'.dialTimeout = lb.dialTimeout ∧
    lb'.retryPolicy = lb.retryPolicy ∧ lb'.metrics.length = lb.metrics.length

/-- The loop of a dial reads nothing else. -/
theorem SameSetup.dialWithRetry {lb lb' : LoadBalancer σ} (h : SameSetup lb lb') (p : Profile)
    (idx : ℕ) (dialTimeout : Option Duration) (retryPolicy : Option RetryPolicy)
    (rounds : List Round) :
    lb'.dialWithRetry p idx dialTimeout retryPolicy rounds =
      lb.dialWithRetry p idx dialTimeout retryPolicy rounds := by
  obtain ⟨hb, ht, hp, -⟩ := h
  rw [LoadBalancer.dialWithRetry, LoadBalancer.dialWithRetry, hb, ht, hp]

theorem SameSetup.trans {lb lb' lb'' : LoadBalancer σ} (h : SameSetup lb lb')
    (h' : SameSetup lb' lb'') : SameSetup lb lb'' :=
  ⟨h'.1.trans h.1, h'.2.1.trans h.2.1, h'.2.2.1.trans h.2.2.1, h'.2.2.2.trans h.2.2.2⟩

theorem SameSetup.answers {lb lb' : LoadBalancer σ} {H : Finset ℕ} {r : Request}
    (h : SameSetup lb lb') (hr : lb.Answers H r) : lb'.Answers H r := by
  obtain ⟨haddr, hslots⟩ := hr
  refine ⟨haddr, fun i hi => ?_⟩
  rw [h.dialWithRetry]
  exact hslots i (h.1 ▸ hi)

/-- **One dial**: it goes to the primary, which stays there if the dial succeeds. -/
theorem dialRequest_ring (env : Env) {lb : LoadBalancer Builtin} {n p len : ℕ} {H : Finset ℕ}
    {r : Request} (hmetrics : lb.metrics.length = n) (hbackends : lb.backends.length = n)
    (hlt : p < n) (hsize : n ≤ 2 ^ 64) (hs : lb.strategy = .failover ⟨p, len⟩)
    (hr : lb.Answers H r) :
    ∃ lb', lb.dialRequest env r = .ok ((p, decide (p ∈ H)), lb') ∧ SameSetup lb lb' ∧
      lb'.strategy = .failover ⟨if p ∈ H then p else (p + 1) % n, n⟩ := by
  obtain ⟨haddr, hanswers⟩ := hr
  have hpick : BalanceStrategy.pick env r.draw lb.strategy ⟨r.addr, lb.metrics⟩ =
      .ok (p, .failover ⟨p, n⟩) := by
    have hview : PoolView.len ⟨r.addr, lb.metrics⟩ = n := hmetrics
    have hpicked := Failover.builtin_pick env r.draw ⟨p, len⟩ ⟨r.addr, lb.metrics⟩
      (hview ▸ Nat.zero_lt_of_lt hlt)
    rw [hs, hpicked, hview, Nat.mod_eq_of_lt hlt]
  obtain ⟨b, hb, hbegin⟩ := beginDial_picked (hmetrics.trans hbackends.symm) haddr hpick
    (hmetrics ▸ hlt)
  obtain ⟨s, result, hloop, hstage, hresult⟩ := hanswers p (hbackends ▸ hlt)
  set lb₁ : LoadBalancer Builtin :=
    { lb with metrics := lb.metrics.modify p countDial, strategy := .failover ⟨p, n⟩ }
  have hsame : SameSetup lb lb₁ := ⟨rfl, rfl, rfl, List.length_modify ..⟩
  have hreport : reportResult lb₁.strategy p result =
      .ok (.failover ⟨if p ∈ H then p else (p + 1) % n, n⟩) := by
    cases result with
    | ok u => rw [if_pos (hresult.mp rfl)]; rfl
    | error e =>
        rw [if_neg fun hp => nomatch hresult.mpr hp]
        exact (Failover.reportError_moved hlt hsize p).trans (by rw [Failover.moved, if_pos rfl])
  have hdial := dialWithOptions_eq_ok hbegin ((hsame.dialWithRetry ..).trans hloop) hstage
    (handleResult_eq hreport)
  have hok : result.isOk = decide (p ∈ H) := by
    rw [Bool.eq_iff_iff, hresult, decide_eq_true_iff]
  refine ⟨{ lb₁ with
    metrics := lb₁.metrics.modify p (recordResult result)
    strategy := .failover ⟨if p ∈ H then p else (p + 1) % n, n⟩ }, ?_, ?_, rfl⟩
  · rw [dialRequest, hbegin]
    refine bind_eq_ok.mpr ⟨_, hdial, ?_⟩
    rw [hok]
    rfl
  · exact ⟨rfl, rfl, rfl, (List.length_modify ..).trans (List.length_modify ..)⟩

/-- The next slot of `H` on the way round from slot `p`. -/
theorem exists_next {n p : ℕ} {H : Finset ℕ} (hlt : p < n) (hH : H.Nonempty)
    (hsub : H ⊆ Finset.range n) :
    ∃ j ≤ n - H.card, (p + j) % n ∈ H ∧ ∀ k < j, (p + k) % n ∉ H := by
  classical
  have hpos : 0 < n := Nat.zero_lt_of_lt hlt
  have hex : ∃ k < n, (p + k) % n ∈ H := by
    obtain ⟨h, hh⟩ := hH
    have hhn := Finset.mem_range.mp (hsub hh)
    refine ⟨(h + (n - p)) % n, Nat.mod_lt _ hpos, ?_⟩
    rw [Nat.add_mod_mod, show p + (h + (n - p)) = h + n by omega, Nat.add_mod_right,
      Nat.mod_eq_of_lt hhn]
    exact hh
  set j := Nat.find hex
  obtain ⟨hjn, hj⟩ := Nat.find_spec hex
  have hmiss : ∀ k < j, (p + k) % n ∉ H := fun k hk hmem =>
    Nat.find_min hex hk ⟨hk.trans hjn, hmem⟩
  refine ⟨j, ?_, hj, hmiss⟩
  -- the slots passed are different ones, none of them in `H`
  have hcard := Finset.card_le_card_of_injOn (s := Finset.range j) (t := Finset.range n \ H)
    (fun k => (p + k) % n) ?_ ?_
  · rwa [Finset.card_range, Finset.card_sdiff_of_subset hsub, Finset.card_range] at hcard
  · intro k hk
    exact Finset.mem_sdiff.mpr ⟨Finset.mem_range.mpr (Nat.mod_lt _ hpos),
      hmiss k (Finset.mem_range.mp hk)⟩
  · intro k hk l hl heq
    have hmod : k ≡ l [MOD n] := Nat.ModEq.add_left_cancel' p heq
    exact hmod.eq_of_lt_of_lt ((Finset.mem_range.mp hk).trans hjn)
      ((Finset.mem_range.mp hl).trans hjn)

/-- After the dials with the results `outs` the primary is as many slots on, but not further than
`j`, and so was the slot of each of these dials. -/
structure Walked (n p j : ℕ) (lb : LoadBalancer Builtin) (outs : List (ℕ × Bool))
    (lb' : LoadBalancer Builtin) : Prop where
  same : SameSetup lb lb'
  primary : ∃ len, lb'.strategy = .failover ⟨(p + min outs.length j) % n, len⟩
  results : ∀ t o, outs[t]? = some o → o = ((p + min t j) % n, decide (j ≤ t))

/-- **One more dial of the sequence.** -/
theorem Walked.dial (env : Env) {lb lb' : LoadBalancer Builtin} {n p j : ℕ} {H : Finset ℕ}
    {outs : List (ℕ × Bool)} {r : Request} (h : Walked n p j lb outs lb')
    (hmetrics : lb.metrics.length = n) (hbackends : lb.backends.length = n) (hpos : 0 < n)
    (hsize : n ≤ 2 ^ 64) (hr : lb.Answers H r) (hj : (p + j) % n ∈ H)
    (hmiss : ∀ k < j, (p + k) % n ∉ H) :
    ∃ o lb'', lb'.dialRequest env r = .ok (o, lb'') ∧ Walked n p j lb (outs ++ [o]) lb'' := by
  obtain ⟨hsame, ⟨len, hs⟩, houts⟩ := h
  obtain ⟨lb'', hdial, hsame', hs'⟩ := dialRequest_ring env (hsame.2.2.2.trans hmetrics)
    ((congrArg List.length hsame.1).trans hbackends) (Nat.mod_lt _ hpos) hsize hs
    (hsame.answers hr)
  -- before the `j`-th dial the primary is not in `H`, from then on it is
  have hmem : (p + min outs.length j) % n ∈ H ↔ j ≤ outs.length := by
    rcases Nat.lt_or_ge outs.length j with hlt | hge
    · rw [Nat.min_eq_left hlt.le]
      exact iff_of_false (hmiss _ hlt) (not_le.mpr hlt)
    · rw [Nat.min_eq_right hge]
      exact iff_of_true hj hge
  refine ⟨_, lb'', hdial, hsame.trans hsame', ⟨n, ?_⟩, ?_⟩
  · rw [hs', List.length_append, List.length_singleton]
    congr 2
    by_cases hge : j ≤ outs.length
    · rw [if_pos (hmem.mpr hge), Nat.min_eq_right hge, Nat.min_eq_right (by omega)]
    · rw [if_neg (mt hmem.mp hge), Nat.mod_add_mod, Nat.min_eq_left (by omega),
        Nat.min_eq_left (by omega), Nat.add_assoc]
  · intro t o ho
    rcases Nat.lt_or_ge t outs.length with ht | ht
    · rw [List.getElem?_append_left ht] at ho
      exact houts t o ho
    · rw [List.getElem?_append_right ht, List.getElem?_singleton] at ho
      split at ho
      · obtain rfl : t = outs.length := by omega
        rw [← Option.some.inj ho]
        simp only [hmem]
      · cases ho

/-- **A sequence of dials**: those that fail pass the slots up to the next one of `H`, all
others stay there. -/
theorem trace_ring {env : Env} {lb : LoadBalancer Builtin} {n p len : ℕ} {H : Finset ℕ}
    {rs : List Request} (hmetrics : lb.metrics.length = n) (hbackends : lb.backends.length = n)
    (hlt : p < n) (hsize : n ≤ 2 ^ 64) (hs : lb.strategy = .failover ⟨p, len⟩)
    (hrs : ∀ r ∈ rs, lb.Answers H r) {j : ℕ} (hj : (p + j) % n ∈ H)
    (hmiss : ∀ k < j, (p + k) % n ∉ H) :
    ∃ outs lb', trace (dialRequest env) lb rs = .ok (outs, lb') ∧ outs.length = rs.length ∧
      ∀ t o, outs[t]? = some o → o = ((p + min t j) % n, decide (j ≤ t)) := by
  have hstart : Walked n p j lb [] lb := by
    refine ⟨⟨rfl, rfl, rfl, rfl⟩, ⟨len, ?_⟩, by simp⟩
    rw [List.length_nil, Nat.zero_min, Nat.add_zero, Nat.mod_eq_of_lt hlt]
    exact hs
  obtain ⟨outs, lb', htrace, hlen, hwalked⟩ := trace_rule hstart fun outs lb' r hr _ h =>
    h.dial env hmetrics hbackends (Nat.zero_lt_of_lt hlt) hsize (hrs r hr) hj hmiss
  exact ⟨outs, lb', htrace, hlen, hwalked.results⟩

end LoadBalancer

namespace World

/-- A new `Failover` in a balancer without dials in progress starts at slot 0. -/
theorem ring_of_constructed {env : Env} {w : World Builtin} {s : Failover}
    (hreach : Reaches (step env) Initial w) (hidle : w.dials = [])
    (hs : w.lb.strategy = .failover s) (hnew : Builtin.Constructed (.failover s))
    (hne : w.lb.backends ≠ []) : Ring w.lb.backends.length 0 w := by
  obtain ⟨hb, hi, hm⟩ := (reaches_sync hreach).length
  have hzero : s.primary = 0 := by
    cases hnew with
    | failover => rfl
    | failoverWith n => rfl
  have hgood : LawfulStrategy.Good w.lb.strategy := hs ▸ hnew.good
  refine ⟨⟨hi.trans hb.symm, hm.trans hb.symm, hgood, ?_⟩, rfl, List.length_pos_iff.mpr hne,
    s.len, ?_, .inr hidle⟩
  · intro d hd
    rw [hidle] at hd
    exact absurd hd List.not_mem_nil
  · rw [hs, ← hzero]

/-- **Failover as a ring.** Let a new `Failover` be the strategy of a balancer with `n` backends
and no dial in progress. In every state that any interleaving of dials and other events reaches
from there with that strategy and `n` backends throughout, the primary `p` is a slot, and:

* an event that reports an error about a slot moves the primary to `(p + 1) mod n` if and only if
  that slot is `p`, and every other event leaves it alone;
* with two backends or more, a stretch of events with one or more reports, all of them about
  `p`, takes the primary from `p` to `(p + 1) mod n`;
* of dials one after the other that succeed exactly in the slots of a non-empty set `H`, at most
  `n - |H|` fail, in slots outside `H`, and all later ones succeed in one slot of `H`. -/
theorem failover_ring {env : Env} {w₀ w : World Builtin} {s : Failover} {n : ℕ}
    {es : List (Event Builtin)} (hreach : Reaches (step env) Initial w₀) (hidle : w₀.dials = [])
    (hs : w₀.lb.strategy = .failover s) (hnew : Builtin.Constructed (.failover s))
    (hn : 1 ≤ n) (hsize : n ≤ 2 ^ 64) (hrun : run (step env) w₀ es = .ok w)
    (hkeeps : ∀ e ∈ es, e.KeepsStrategy)
    (hpool : Throughout (step env) (fun w => w.lb.backends.length = n) w₀ es) :
    ∃ p < n, w.primary = some p ∧
      (∀ e w', e.KeepsStrategy → w.step env e = .ok w' → w'.lb.backends.length = n →
        ∃ p', w'.primary = some p' ∧
          (∀ i, w.reported e = some i → (p' = (p + 1) % n ↔ i = p) ∧ (i ≠ p → p' = p)) ∧
          (w.reported e = none → p' = p)) ∧
      (2 ≤ n → ∀ fs w', run (step env) w fs = .ok w' → (∀ e ∈ fs, e.KeepsStrategy) →
        Throughout (step env) (fun w => w.lb.backends.length = n) w fs →
        Along (step env) (fun w e => ∀ i, w.reported e = some i → i = p) w fs →
        0 < count (step env) reports w fs → w'.primary = some ((p + 1) % n)) ∧
      ∀ (H : Finset ℕ) (rs : List Request), H.Nonempty → H ⊆ Finset.range n →
        (∀ r ∈ rs, w.lb.Answers H r) →
        ∃ outs lb', trace (LoadBalancer.dialRequest env) w.lb rs = .ok (outs, lb') ∧
          outs.length = rs.length ∧
          ∃ j ≤ n - H.card, ∃ h ∈ H, ∀ t slot ok, outs[t]? = some (slot, ok) →
            (t < j → slot ∉ H ∧ ok = false) ∧ (j ≤ t → slot = h ∧ ok = true) := by
  have hsize₀ : w₀.lb.backends.length = n := hpool.head
  have hne : w₀.lb.backends ≠ [] := List.ne_nil_of_length_pos (by omega)
  have hstart : Ring n 0 w₀ := hsize₀ ▸ ring_of_constructed hreach hidle hs hnew hne
  obtain ⟨p, hring⟩ := run_ring hstart hsize ((along_of_forall hkeeps).and hpool.along) hrun
  refine ⟨p, hring.lt, hring.primary, ?_, ?_, ?_⟩
  · intro e w' he hstep hlen
    refine ⟨_, (step_ring hring hsize he hstep hlen).primary, fun i hi => ?_, fun hnone => ?_⟩
    · rw [hi, Failover.moved]
      by_cases hip : i = p
      · rw [if_pos (congrArg some hip)]
        exact ⟨iff_of_true rfl hip, fun hne => absurd hip hne⟩
      · rw [if_neg fun heq => hip (Option.some.inj heq)]
        refine ⟨iff_of_false (fun heq => ?_) hip, fun _ => rfl⟩
        -- another slot is reported, so there are two slots at least
        have hin := hring.reported_lt hi
        have hpn := hring.lt
        exact Failover.succ_mod_ne (by omega) hpn heq.symm
    · rw [hnone]
      rfl
  · intro hn2 fs w' hfs hkeeps' hpool' hburst hcount
    have hlast := run_burst hring hsize hn2 ((along_of_forall hkeeps').and hpool'.along) hburst hfs
    rw [if_neg hcount.ne'] at hlast
    exact hlast.primary
  · intro H rs hH hsub hrs
    obtain ⟨len, hstrategy, -⟩ := hring.strategy
    obtain ⟨j, hj, hmem, hmiss⟩ := LoadBalancer.exists_next hring.lt hH hsub
    obtain ⟨outs, lb', htrace, hlen, houts⟩ := LoadBalancer.trace_ring
      (hring.steady.metrics.trans hring.size) hring.size hring.lt hsize hstrategy hrs hmem hmiss
    refine ⟨outs, lb', htrace, hlen, j, hj, _, hmem, fun t slot ok ht => ?_⟩
    obtain ⟨rfl, rfl⟩ := Prod.mk.inj (houts t _ ht)
    refine ⟨fun hlt => ?_, fun hge => ?_⟩
    · rw [Nat.min_eq_left hlt.le]
      exact ⟨hmiss t hlt, decide_eq_false (not_le.mpr hlt)⟩
    · rw [Nat.min_eq_right hge]
      exact ⟨rfl, decide_eq_true hge⟩

/-- Two dials to the same primary, which both fail. -/
def burstRun : List (Event Builtin) :=
  [.start "a:1" none none 0, .start "a:1" none none 0,
    .attempted 0 (.failed .noBackends) (.fromMillis 0) 0,
    .attempted 1 (.failed .noBackends) (.fromMillis 0) 0,
    .lockMetrics 1, .lockMetrics 0, .lockStrategy 0, .lockStrategy 0]

/-- A dial that only the backend in slot 2 answers. -/
def onlyLast : Request where
  addr := "a:1"
  draw := 0
  dialTimeout := none
  retryPolicy := none
  rounds i := [⟨⟨some (.fromMillis 1), if i = 2 then .ok () else .error .noBackends⟩, 0⟩]

/-- Of three backends the burst passes one; dials in sequence pass two. -/
theorem failover_ring_three :
    ∃ w', run (step Env.plain) (ofSize 3 (Builtin.failover .new)) burstRun = .ok w' ∧
      w'.primary = some ((0 + 1) % 3) ∧
      ∃ outs lb', trace (LoadBalancer.dialRequest Env.plain)
          (ofSize 3 (Builtin.failover .new)).lb (List.replicate 4 onlyLast) = .ok (outs, lb') ∧
        ∃ j ≤ 3 - 1, ∃ h ∈ ({2} : Finset ℕ), ∀ t slot ok, outs[t]? = some (slot, ok) →
          (t < j → slot ∉ ({2} : Finset ℕ) ∧ ok = false) ∧ (j ≤ t → slot = h ∧ ok = true) := by
  have hreach : Reaches (step Env.plain) Initial (ofSize 3 (Builtin.failover .new)) :=
    ⟨_, [], initial_ofSize (by decide) _, rfl⟩
  have hrun : run (step Env.plain) (ofSize 3 (Builtin.failover .new)) [] =
      .ok (ofSize 3 (Builtin.failover .new)) := rfl
  obtain ⟨p, -, hp, -, hburst, hseq⟩ := failover_ring (n := 3) hreach rfl rfl .failover
    (by decide) (by decide) hrun (fun e he => absurd he List.not_mem_nil) (by decide)
  obtain rfl : 0 = p := Option.some.inj hp
  have hends : ends (step Env.plain) (fun _ => true) (ofSize 3 (Builtin.failover .new)) burstRun =
      true := by decide
  obtain ⟨w', hrun, -⟩ := exists_run_of_ends hends
  have hanswers : ∀ r ∈ List.replicate 4 onlyLast,
      (ofSize 3 (Builtin.failover .new)).lb.Answers {2} r := by
    intro r hr
    rw [List.eq_of_mem_replicate hr]
    refine ⟨by decide, fun i hi => ?_⟩
    have hi : i < 3 := hi
    obtain rfl | rfl | rfl : i = 0 ∨ i = 1 ∨ i = 2 := by omega
    all_goals exact ⟨_, _, rfl, rfl, by decide⟩
  refine ⟨w', hrun, ?_, ?_⟩
  · refine hburst (by decide) burstRun w' hrun ?_ (by decide) (by decide) (by decide)
    simp [burstRun, Event.KeepsStrategy]
  · obtain ⟨outs, lb', htrace, -, hnext⟩ := hseq {2} (List.replicate 4 onlyLast)
      (Finset.singleton_nonempty 2) (by decide) hanswers
    exact ⟨outs, lb', htrace, hnext⟩

end World

end RotaLb
