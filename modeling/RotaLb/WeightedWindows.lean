import Mathlib.Data.List.Range
import RotaLb.WeightedShares

/-!
# Weighted Round-Robin under Changing RTTs

Any change of any RTT makes `WeightedRoundRobin` rebuild its weights and forget its picks, and
the scan begins again at index 0. A sequence of picks falls into stretches, each under one list
of RTTs and each but the first opened by a rebuild. A stretch as long as the pool that begins
with a rebuild reaches every index, and so does one as long as the total weight wherever it
begins; the last index needs the whole length, so RTTs that change often enough starve it.

## Main results

* `mem_of_stretch`: a long stretch reaches every index.
* `not_mem_of_short`: without one, the last index is not reached.
* `starves_nobody`: **which windows reach every index**.
* `changing_rtts_pick_zero`: RTTs that change at every pick lead to index 0 every time.
-/

namespace RotaLb

open Rust Scan StepSystem Apportion

namespace WeightedRoundRobin

/-! ### Sequences of picks -/

/-- After a pick the strategy holds the RTTs of its view. -/
theorem pick_rtts {s s' : WeightedRoundRobin} {view : PoolView} {b : ℕ}
    (h : s.pick .release view = .ok (b, s')) : s'.rtts = view.rtts := by
  rw [PoolView.rtts, ← refresh_rtts s view]
  unfold pick at h
  simp only at h
  split at h
  · cases h
    rfl
  · obtain ⟨best, -, h⟩ := bind_eq_ok.mp h
    obtain ⟨count, -, h⟩ := bind_eq_ok.mp h
    obtain ⟨count', -, h⟩ := bind_eq_ok.mp h
    obtain ⟨picks, -, h⟩ := bind_eq_ok.mp h
    cases h
    rfl

/-- After a sequence of picks it holds those of the last view. -/
theorem trace_rtts {s s' : WeightedRoundRobin} {views : List PoolView} {outs : List ℕ}
    (h : trace (pick .release) s views = .ok (outs, s')) :
    s'.rtts = (views.getLast?.map PoolView.rtts).getD s.rtts := by
  cases views using List.reverseRecOn with
  | nil =>
      cases h
      rfl
  | append_singleton views view =>
      obtain ⟨outs₁, s₁, outs₂, -, hlast, -⟩ := trace_append.mp h
      obtain ⟨b, s₂, outs₃, hpick, hnil, -⟩ := trace_cons_eq_ok.mp hlast
      cases hnil
      rw [List.getLast?_concat, Option.map_some, Option.getD_some]
      exact pick_rtts hpick

/-- The counters are fair, and there were at most `N` picks. -/
structure Balanced (N : ℕ) (s : WeightedRoundRobin) : Prop where
  wellSized : s.WellSized
  fair : Fair (weightAt s.rtts) s.served s.rtts.length
  sum_le : ∑ i ∈ Finset.range s.rtts.length, s.served i ≤ N

variable {rtts : List (Option Duration)} {p : ℕ → ℕ} {s s' : WeightedRoundRobin} {view : PoolView}
  {N n : ℕ} {views : List PoolView} {outs : List ℕ}

/-- The stretch that the next pick belongs to. -/
theorem Balanced.serving (h : Balanced N s) (rtts : List (Option Duration)) :
    ∃ p, Serving rtts p s ∧ ∑ i ∈ Finset.range rtts.length, p i ≤ N ∧
      (s.rtts ≠ rtts → p = fun _ => 0) := by
  by_cases hr : s.rtts = rtts
  · subst hr
    exact ⟨s.served, ⟨h.fair, .inr ⟨rfl, h.wellSized, rfl⟩⟩, h.sum_le, fun hne => absurd rfl hne⟩
  · exact ⟨_, serving_zero hr, by simp, fun _ => rfl⟩

/-- The counters at the end of a stretch. -/
theorem Serving.balanced (h : Serving rtts p s) (hr : s.rtts = rtts)
    (hsum : ∑ i ∈ Finset.range rtts.length, p i ≤ N) : Balanced N s := by
  obtain ⟨-, hws, rfl⟩ := h.counts.resolve_left fun hne => hne.1 hr
  subst hr
  exact ⟨hws, h.fair, hsum⟩

/-- Every pick keeps the counters fair. -/
theorem pick_balanced (h : Balanced N s) (hview : 0 < view.len) (hfits : 1000 * N < 2 ^ 64) :
    ∃ b s', s.pick .release view = .ok (b, s') ∧ Balanced (N + 1) s' := by
  have hne : view.rtts ≠ [] := by
    rw [PoolView.rtts, ne_eq, List.map_eq_nil_iff]
    exact List.ne_nil_of_length_pos hview
  obtain ⟨p, hserving, hsum, -⟩ := h.serving view.rtts
  obtain ⟨b, s', hpick, hb, hrtts, hnext⟩ := pick_serving hserving rfl hne (by omega)
  refine ⟨b, s', hpick, hnext.balanced hrtts ?_⟩
  rw [sum_serve hb]
  omega

/-- So does every sequence of picks. -/
theorem trace_balanced (h : Balanced N s) (hviews : ∀ v ∈ views, 0 < v.len)
    (hfits : 1000 * (N + views.length) < 2 ^ 64) :
    ∃ outs s', trace (pick .release) s views = .ok (outs, s') ∧ outs.length = views.length ∧
      Balanced (N + views.length) s' := by
  obtain ⟨outs, s', htrace, hlen, hlast⟩ := trace_rule
    (I := fun outs s => Balanced (N + outs.length) s) h fun outs s view hview hlt hs => by
      obtain ⟨b, s', hpick, hnext⟩ := pick_balanced hs (hviews view hview) (by omega)
      refine ⟨b, s', hpick, ?_⟩
      rwa [List.length_append, List.length_singleton, ← Nat.add_assoc]
  exact ⟨outs, s', htrace, hlen, hlen ▸ hlast⟩

/-- **A long stretch reaches every index**: one as long as the total weight, or as long as the
pool if it begins with a rebuild. -/
theorem mem_of_stretch (h : Balanced N s) (hne : rtts ≠ []) (hviews : ∀ v ∈ views, v.rtts = rtts)
    (hfits : 1000 * (N + views.length) < 2 ^ 64)
    (hlong : totalWeight rtts ≤ views.length ∨ rtts.length ≤ views.length ∧ s.rtts ≠ rtts)
    (htrace : trace (pick .release) s views = .ok (outs, s')) :
    ∀ i < rtts.length, i ∈ outs := by
  intro i hi
  have hpos : ∀ i < rtts.length, 0 < weightAt rtts i := fun i hi => weightAt_pos hi
  obtain ⟨p, hserving, hsum, hzero⟩ := h.serving rtts
  rcases hlong with hround | ⟨hpool, hrebuilt⟩
  · -- the first round of the stretch gives each slot its weight
    rw [← List.take_append_drop (totalWeight rtts) views] at htrace
    obtain ⟨outs₁, s₁, outs₂, hfirst, -, rfl⟩ := trace_append.mp htrace
    have hlen : (views.take (totalWeight rtts)).length = totalWeight rtts := by
      rw [List.length_take]
      omega
    obtain ⟨outs₁', s₁', hfirst', hlen', -, hnext, hsum'⟩ := trace_serving hserving hne
      (fun v hv => hviews v (List.mem_of_mem_take hv)) (by rw [hlen]; omega)
    cases hfirst.symm.trans hfirst'
    have hexact := hserving.fair.exact (k := 1) hpos hnext.fair
      (by rw [hsum', hlen', hlen, sum_weightAt, Nat.one_mul]) hi
    have hw := hpos i hi
    exact List.mem_append_left _ (List.count_pos_iff.mp (by omega))
  · obtain rfl := hzero hrebuilt
    obtain ⟨outs', s₁, htrace', hlen', -, hnext, hsum'⟩ := trace_serving hserving hne hviews
      (by simp only [Finset.sum_const_zero]; omega)
    cases htrace.symm.trans htrace'
    simp only [Nat.zero_add, Finset.sum_const_zero] at hnext hsum'
    have hserved := hnext.fair.served hpos (by omega) hi
    exact List.count_pos_iff.mp (by omega)

/-- Early in a stretch the pick is not the last index. -/
theorem pick_not_last (h : Serving rtts p s) (hview : view.rtts = rtts)
    (hshort : ∑ i ∈ Finset.range rtts.length, p i + 1 < rtts.length)
    (hfits : 1000 * ∑ i ∈ Finset.range rtts.length, p i < 2 ^ 64) :
    ∃ b s', s.pick .release view = .ok (b, s') ∧ b ≠ rtts.length - 1 ∧ s'.rtts = rtts ∧
      Serving rtts (serve p b) s' ∧
      ∑ i ∈ Finset.range rtts.length, serve p b i = ∑ i ∈ Finset.range rtts.length, p i + 1 := by
  have hne : rtts ≠ [] := List.ne_nil_of_length_pos (by omega)
  obtain ⟨b, s', hpick, hb, hrtts, hnext⟩ := pick_serving h hview hne hfits
  have hsum := sum_serve (p := p) hb
  refine ⟨b, s', hpick, ?_, hrtts, hnext, hsum⟩
  rintro rfl
  have hzero := hnext.fair.last_unserved (fun i hi => weightAt_pos hi) (by omega)
  rw [serve_self] at hzero
  omega

/-- **Without a long stretch the last index is not reached.** The picks `p` made before count
towards the first stretch. -/
theorem not_mem_of_short (h : Serving rtts p s)
    (hfirst : ∀ v ∈ views.head?, v.rtts = rtts ∨ s.rtts ≠ v.rtts)
    (hviews : ∀ v ∈ views, v.len = n)
    (hfits : 1000 * (∑ i ∈ Finset.range rtts.length, p i + views.length) < 2 ^ 64)
    (hshort : ∀ R, ¬ List.replicate n R <:+:
      List.replicate (∑ i ∈ Finset.range rtts.length, p i) rtts ++ views.map PoolView.rtts)
    (htrace : trace (pick .release) s views = .ok (outs, s')) : n - 1 ∉ outs := by
  induction views generalizing rtts p s outs with
  | nil =>
      cases htrace
      exact List.not_mem_nil
  | cons view views ih =>
      obtain ⟨b, s₁, outs', hpick, hrest, rfl⟩ := trace_cons_eq_ok.mp htrace
      have hlen : view.rtts.length = n := by
        rw [PoolView.rtts, List.length_map]
        exact hviews view List.mem_cons_self
      -- the stretch that this pick belongs to: the current one, or a new one after a rebuild
      obtain ⟨q, hq, hle, hinfix⟩ : ∃ q, Serving view.rtts q s ∧
          ∑ i ∈ Finset.range n, q i ≤ ∑ i ∈ Finset.range rtts.length, p i ∧
          List.replicate (∑ i ∈ Finset.range n, q i + 1) view.rtts ++ views.map PoolView.rtts <:+:
            List.replicate (∑ i ∈ Finset.range rtts.length, p i) rtts ++
              (view :: views).map PoolView.rtts := by
        rcases hfirst view rfl with hsame | hrebuilt
        · subst hsame
          refine ⟨p, h, by rw [hlen], ?_⟩
          rw [hlen, List.replicate_succ', List.append_assoc]
          exact List.infix_rfl
        · refine ⟨_, serving_zero hrebuilt, by simp, ?_⟩
          simp only [Finset.sum_const_zero, Nat.zero_add]
          exact (List.suffix_append _ _).isInfix
      have hlt : ∑ i ∈ Finset.range n, q i + 1 < n := by
        by_contra hge
        refine hshort view.rtts (List.IsInfix.trans ?_
          ((List.prefix_append _ _).isInfix.trans hinfix))
        exact ⟨[], List.replicate (∑ i ∈ Finset.range n, q i + 1 - n) view.rtts, by simp; omega⟩
      rw [List.length_cons] at hfits
      obtain ⟨b', s₁', hpick', hb, hrtts, hnext, hsum⟩ := pick_not_last hq rfl (by rwa [hlen])
        (by rw [hlen]; omega)
      cases hpick.symm.trans hpick'
      rw [hlen] at hb hsum
      have hrec := ih hnext (fun v _ => hrtts ▸ (em _).imp Eq.symm id)
        (fun v hv => hviews v (List.mem_cons_of_mem _ hv)) (by rw [hlen, hsum]; omega)
        (fun R hR => hshort R ((by rwa [hlen, hsum] at hR : _ <:+: _).trans hinfix)) hrest
      exact List.not_mem_cons_of_ne_of_not_mem hb.symm hrec

/-- The window holds a stretch of picks under one list of RTTs that is as long as their total
weight, or as long as the pool if it begins with a rebuild: the pick before it, if any, saw
other RTTs. -/
def LongStretch (n : ℕ) (earlier window : List PoolView) : Prop :=
  ∃ a b c R, window = a ++ b ++ c ∧ R.length = n ∧ (∀ v ∈ b, v.rtts = R) ∧
    (totalWeight R ≤ b.length ∨
      n ≤ b.length ∧ (earlier ++ a).getLast?.map PoolView.rtts ≠ some R)

/-- In a window that begins with a rebuild, `n` picks in a row under the same RTTs belong to a
stretch that begins with a rebuild. -/
theorem longStretch_of_replicate {earlier a b c : List PoolView} {R : List (Option Duration)}
    (hb : ∀ v ∈ b, v.rtts = R) (hne : b ≠ []) (hR : R.length = n) (hlen : n ≤ b.length)
    (hrebuilt : earlier.getLast?.map PoolView.rtts ≠ (a ++ b ++ c).head?.map PoolView.rtts) :
    LongStretch n earlier (a ++ b ++ c) := by
  induction a using List.reverseRecOn generalizing b with
  | nil =>
      refine ⟨[], b, c, R, rfl, hR, hb, .inr ⟨hlen, ?_⟩⟩
      obtain ⟨v, b', rfl⟩ := List.exists_cons_of_ne_nil hne
      rw [List.append_nil, ← hb v List.mem_cons_self]
      exact hrebuilt
  | append_singleton a v ih =>
      by_cases hv : v.rtts = R
      · -- the stretch began earlier
        have hcons : a ++ [v] ++ b ++ c = a ++ (v :: b) ++ c := by simp
        rw [hcons] at hrebuilt ⊢
        refine ih (fun x hx => ?_) (List.cons_ne_nil _ _) (by rw [List.length_cons]; omega) hrebuilt
        rcases List.mem_cons.mp hx with rfl | hx
        · exact hv
        · exact hb x hx
      · refine ⟨a ++ [v], b, c, R, rfl, hR, hb, .inr ⟨hlen, ?_⟩⟩
        rw [← List.append_assoc, List.getLast?_concat, Option.map_some]
        exact fun he => hv (Option.some.inj he)

/-- A new strategy is balanced. -/
theorem new_balanced : Balanced 0 new := ⟨⟨rfl, rfl⟩, by simp [Fair, new], by simp [new]⟩

/-- The next pick rebuilds exactly when the last one saw other RTTs. -/
theorem rtts_ne_of_getLast? (htrace : trace (pick .release) new views = .ok (outs, s))
    (hne : rtts ≠ []) (hlast : views.getLast?.map PoolView.rtts ≠ some rtts) : s.rtts ≠ rtts := by
  rw [trace_rtts htrace]
  intro he
  cases hv : views.getLast? with
  | none =>
      rw [hv] at he
      exact hne he.symm
  | some v =>
      rw [hv] at he hlast
      exact hlast (congrArg some he)

/-- A window with a long stretch returns every index. -/
theorem mem_of_longStretch {earlier window : List PoolView} {outs₀ : List ℕ} (hn : 1 ≤ n)
    (hpos : ∀ v ∈ earlier ++ window, 0 < v.len)
    (hfits : 1000 * (earlier.length + window.length) < 2 ^ 64)
    (hearlier : trace (pick .release) new earlier = .ok (outs₀, s))
    (htrace : trace (pick .release) s window = .ok (outs, s'))
    (hlong : LongStretch n earlier window) : ∀ i < n, i ∈ outs := by
  obtain ⟨a, b, c, R, rfl, hR, hb, hstretch⟩ := hlong
  have hne : R ≠ [] := List.ne_nil_of_length_pos (by omega)
  obtain ⟨outs₁, s₂, outs₂, hab, -, rfl⟩ := trace_append.mp htrace
  obtain ⟨outsa, s₁, outsb, ha, hb', rfl⟩ := trace_append.mp hab
  have hbefore : trace (pick .release) new (earlier ++ a) = .ok (outs₀ ++ outsa, s₁) :=
    trace_append.mpr ⟨outs₀, s, outsa, hearlier, ha, rfl⟩
  simp only [List.length_append] at hfits
  have hpos' : ∀ v ∈ earlier ++ a, 0 < v.len := by
    intro v hv
    refine hpos v ?_
    simp only [List.mem_append] at hv ⊢
    tauto
  have hfits' : 1000 * (0 + (earlier ++ a).length) < 2 ^ 64 := by
    rw [List.length_append]
    omega
  obtain ⟨outs', s₁', hbefore', -, hs₁⟩ := trace_balanced new_balanced hpos' hfits'
  cases hbefore.symm.trans hbefore'
  rw [Nat.zero_add, List.length_append] at hs₁
  have hmem := mem_of_stretch hs₁ hne hb (by omega)
    (hstretch.imp_right fun ⟨hlen, hlast⟩ => ⟨hR ▸ hlen, rtts_ne_of_getLast? hbefore hne hlast⟩) hb'
  exact fun i hi => List.mem_append_left _ (List.mem_append_right _ (hmem i (hR ▸ hi)))

/-- A window that begins with a rebuild and in which no `n` picks in a row saw the same RTTs
does not return the last index. -/
theorem last_not_mem {earlier window : List PoolView} {outs₀ : List ℕ} (hn : 1 ≤ n)
    (hviews : ∀ v ∈ window, v.len = n) (hfits : 1000 * window.length < 2 ^ 64)
    (hearlier : trace (pick .release) new earlier = .ok (outs₀, s))
    (htrace : trace (pick .release) s window = .ok (outs, s'))
    (hrebuilt : earlier.getLast?.map PoolView.rtts ≠ window.head?.map PoolView.rtts)
    (hshort : ∀ R, ¬ List.replicate n R <:+: window.map PoolView.rtts) : n - 1 ∉ outs := by
  cases window with
  | nil =>
      cases htrace
      exact List.not_mem_nil
  | cons v window =>
      have hne : v.rtts ≠ [] := by
        have hlen : v.metrics.length = n := hviews v List.mem_cons_self
        rw [PoolView.rtts, ne_eq, List.map_eq_nil_iff, ← List.length_eq_zero_iff]
        omega
      refine not_mem_of_short (serving_zero (rtts_ne_of_getLast? hearlier hne hrebuilt))
        (fun x hx => .inl (by rw [Option.some.inj hx])) hviews ?_ ?_ htrace
      · simpa using hfits
      · simpa using hshort

/-- **Which windows reach every index.** For every sequence of picks on views of `n` backends
and every window of `1000 * n` picks in it:

* a window with a long stretch returns every index;
* a window that begins with a rebuild returns every index if and only if `n` picks in a row
  saw the same RTTs. -/
theorem starves_nobody (hn : 1 ≤ n) {earlier window : List PoolView}
    (hlen : ∀ v ∈ earlier ++ window, v.len = n) (hwindow : window.length = 1000 * n)
    (hfits : 1000 * (earlier.length + window.length) < 2 ^ 64) :
    ∃ outs₀ s outs s', trace (pick .release) .new earlier = .ok (outs₀, s) ∧
      trace (pick .release) s window = .ok (outs, s') ∧ outs.length = 1000 * n ∧
      (LongStretch n earlier window → ∀ i < n, i ∈ outs) ∧
      (earlier.getLast?.map PoolView.rtts ≠ window.head?.map PoolView.rtts →
        ((∀ i < n, i ∈ outs) ↔ ∃ R, List.replicate n R <:+: window.map PoolView.rtts)) := by
  have hpos : ∀ v ∈ earlier ++ window, 0 < v.len := fun v hv => by
    have := hlen v hv
    omega
  obtain ⟨outs₀, s, hearlier, -, hs⟩ := trace_balanced new_balanced
    (fun v hv => hpos v (List.mem_append_left _ hv)) (by omega)
  obtain ⟨outs, s', htrace, hlength, -⟩ := trace_balanced hs
    (fun v hv => hpos v (List.mem_append_right _ hv)) (by omega)
  have hlong := mem_of_longStretch hn hpos hfits hearlier htrace
  refine ⟨outs₀, s, outs, s', hearlier, htrace, hlength.trans hwindow, hlong,
    fun hrebuilt => ⟨fun hall => ?_, ?_⟩⟩
  · by_contra hnone
    push Not at hnone
    exact last_not_mem hn (fun v hv => hlen v (List.mem_append_right _ hv)) (by omega) hearlier
      htrace hrebuilt hnone (hall (n - 1) (by omega))
  · rintro ⟨R, a, c, hmap⟩
    obtain ⟨ab, c', rfl, hab, -⟩ := List.map_eq_append_iff.mp hmap.symm
    obtain ⟨a', b, rfl, -, hb⟩ := List.map_eq_append_iff.mp hab
    have hblen : b.length = n := by simpa using congrArg List.length hb
    have hbR : ∀ v ∈ b, v.rtts = R := fun v hv =>
      List.eq_of_mem_replicate (hb ▸ List.mem_map_of_mem hv)
    obtain ⟨v, b', rfl⟩ := List.exists_cons_of_ne_nil (List.ne_nil_of_length_pos
      (by omega : 0 < b.length))
    have hR : R.length = n := by
      rw [← hbR v List.mem_cons_self, PoolView.rtts, List.length_map]
      exact hlen v (by simp)
    exact hlong (longStretch_of_replicate hbR (List.cons_ne_nil _ _) hR hblen.ge hrebuilt)

/-- Two views of two backends by turns: the second backend has an RTT in every other one. -/
def alternating (i : ℕ) : PoolView :=
  ⟨"h", [{}, { rtt := if i % 2 = 0 then none else some (.fromMillis 1000) }]⟩

/-- RTTs that change at every pick but one in the middle: there two picks in a row see the same. -/
def pausing : List PoolView :=
  (List.range 1000).map alternating ++ [alternating 0, alternating 0] ++
    (List.range 998).map fun i => alternating (i + 1)

/-- The two picks in the middle reach both backends. -/
theorem starves_nobody_pausing :
    pausing.length = 1000 * 2 ∧
    ∃ outs s', trace (pick .release) .new pausing = .ok (outs, s') ∧ ∀ i < 2, i ∈ outs := by
  have hwindow : pausing.length = 1000 * 2 := by simp [pausing]
  have hlen : ∀ v ∈ [] ++ pausing, v.len = 2 := by
    intro v hv
    obtain ⟨i, rfl⟩ : ∃ i, alternating i = v := by
      simp only [pausing, List.nil_append, List.mem_append, List.mem_map, List.mem_cons,
        List.not_mem_nil, or_false] at hv
      rcases hv with (⟨i, -, hi⟩ | hi | hi) | ⟨i, -, hi⟩
      exacts [⟨i, hi⟩, ⟨0, hi.symm⟩, ⟨0, hi.symm⟩, ⟨i + 1, hi⟩]
    rfl
  have hpause : LongStretch 2 [] pausing := by
    refine ⟨(List.range 1000).map alternating, [alternating 0, alternating 0], _,
      (alternating 0).rtts, rfl, rfl, by simp, .inr ⟨le_rfl, ?_⟩⟩
    have hlast : ((List.range 1000).map alternating).getLast? = some (alternating 999) := by
      simp [List.getLast?_range]
    rw [List.nil_append, hlast]
    decide
  obtain ⟨outs₀, s, outs, s', hearlier, htrace, -, hlong, -⟩ := starves_nobody (by decide) hlen
    hwindow (by rw [hwindow]; decide)
  cases hearlier
  exact ⟨hwindow, outs, s', htrace, hlong hpause⟩

/-- **RTTs that change at every pick lead to index 0 every time.** -/
theorem changing_rtts_pick_zero (hfirst : ∀ v ∈ views.head?, v.rtts ≠ s.rtts)
    (hchange : views.IsChain fun v v' => v'.rtts ≠ v.rtts) (hpos : ∀ v ∈ views, 0 < v.len) :
    ∃ s', trace (pick .release) s views = .ok (List.replicate views.length 0, s') := by
  induction views generalizing s with
  | nil => exact ⟨s, rfl⟩
  | cons view views ih =>
      obtain ⟨hnext, hrest⟩ := List.isChain_cons.mp hchange
      have hne : view.rtts ≠ [] := by
        rw [PoolView.rtts, ne_eq, List.map_eq_nil_iff]
        exact List.ne_nil_of_length_pos (hpos view List.mem_cons_self)
      obtain ⟨b, s₁, hpick, hb, hrtts, hserving⟩ :=
        pick_serving (serving_zero (hfirst view rfl).symm) rfl hne (by simp)
      -- nobody was served before, so the first turn goes to index 0
      obtain rfl : b = 0 := by
        by_contra hb0
        have hlast := (hserving.fair.le_one_of_unserved (fun i hi => weightAt_pos hi) hb
          (Nat.zero_lt_of_lt hb) (serve_of_ne (Ne.symm hb0))).2 (Nat.zero_le b)
        rw [serve_self] at hlast
        omega
      obtain ⟨s', htrace⟩ := ih (s := s₁) (fun v hv => hrtts ▸ hnext v hv) hrest
        fun v hv => hpos v (List.mem_cons_of_mem _ hv)
      exact ⟨s', trace_cons_eq_ok.mpr ⟨0, s₁, _, hpick, htrace, rfl⟩⟩

/-- Two thousand picks on views of two backends, the RTT of the second changing at each of
them: the second backend is never picked. -/
theorem second_backend_starved :
    ((List.range 2000).map alternating).length = 1000 * 2 ∧
    (∀ v ∈ (List.range 2000).map alternating, v.len = 2) ∧
    ∃ outs s', trace (pick .release) .new ((List.range 2000).map alternating) = .ok (outs, s') ∧
      1 ∉ outs := by
  have hlen : ∀ v ∈ (List.range 2000).map alternating, v.len = 2 := by
    intro v hv
    obtain ⟨i, -, rfl⟩ := List.mem_map.mp hv
    rfl
  have hchange : ((List.range 2000).map alternating).IsChain fun v v' => v'.rtts ≠ v.rtts := by
    rw [List.isChain_map, List.isChain_range]
    intro i _ he
    have hrtt : (alternating (i + 1)).rtts[1]? = (alternating i).rtts[1]? := by rw [he]
    simp only [alternating, PoolView.rtts, List.map_cons, List.getElem?_cons_succ,
      List.getElem?_cons_zero] at hrtt
    split at hrtt <;> split at hrtt <;> first | omega | simp at hrtt
  have hfirst : ∀ v ∈ ((List.range 2000).map alternating).head?, v.rtts ≠ new.rtts := by
    intro v hv he
    have hmem : v.len = 2 := hlen v (List.mem_of_mem_head? hv)
    have hzero : v.len = 0 := List.length_eq_zero_iff.mpr (List.map_eq_nil_iff.mp he)
    omega
  obtain ⟨s', htrace⟩ := changing_rtts_pick_zero hfirst hchange
    fun v hv => by rw [hlen v hv]; exact Nat.two_pos
  refine ⟨by simp, hlen, _, s', htrace, fun hmem => ?_⟩
  exact absurd (List.eq_of_mem_replicate hmem) (by decide)

end WeightedRoundRobin

end RotaLb
