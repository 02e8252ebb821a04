import RotaLb.WeightedShares

/-!
# Weights from Round-Trip Times

The crate computes the weight of a round-trip time twice, in `calculate_weight` and in
`WeightedRoundRobin::rebuild`: `max(1, 1000 / rtt_ms)`, after a number of milliseconds that does
not fit 64 bits has been replaced by a fallback. The fallbacks are different, but both are raised
to 1 before the division, so the two agree, and every weight is in `1..1000`.

A fallback of one millisecond is the smallest divisor there is. Round-trip times of `2 ^ 64`
milliseconds and more have the largest weight, like those below two milliseconds, and only up to
there is a slower backend not preferred to a faster one.

## Main results

* `WeightedRoundRobin.weight_some`: the weight in closed form.
* `WeightedRoundRobin.weight_le_weight_iff`: which of two weights is the larger one.
* `WeightedRoundRobin.weights_ordered_iff`: **the two computations agree, stay in `1..1000`, and
  are ordered like the round-trip times exactly below `2 ^ 64` milliseconds**, up to equal
  weights.
* `WeightedRoundRobin.count_le_count_iff`: the same for the numbers of picks.
-/

namespace RotaLb

open Rust StepSystem

/-- `calculate_weight`. -/
def calculateWeight (rtt : Duration) : ℕ :=
  let ms := max ((tryFrom 64 rtt.asMillis).getD 0) 1
  (tryFrom 32 (max (MS_PER_SECOND / ms) MIN_WEIGHT)).getD MIN_WEIGHT

/-- More time is more milliseconds. -/
theorem Duration.asMillis_mono {d₁ d₂ : Duration} (h : d₁ ≤ d₂) : d₁.asMillis ≤ d₂.asMillis :=
  Nat.div_le_div_right h

/-- The divisor, up to the fallback for what does not fit 64 bits. -/
theorem max_tryFrom_getD {n d : ℕ} (hd : d ≤ 1) :
    max ((tryFrom 64 n).getD d) 1 = if n < 2 ^ 64 then max n 1 else 1 := by
  rw [tryFrom]
  split
  · rfl
  · rw [Option.getD_none]
    omega

/-- A quotient of 1000 is a `u32`. -/
theorem tryFrom_quotient (ms : ℕ) :
    (tryFrom 32 (max (MS_PER_SECOND / ms) MIN_WEIGHT)).getD MIN_WEIGHT = max (1000 / ms) 1 := by
  have hle : 1000 / ms ≤ 1000 := Nat.div_le_self 1000 ms
  have hlt : max (1000 / ms) 1 < 2 ^ 32 := by omega
  rw [MS_PER_SECOND, MIN_WEIGHT, tryFrom, if_pos hlt, Option.getD_some]

namespace WeightedRoundRobin

/-- **The weight of a round-trip time**, in closed form. -/
theorem weight_some (d : Duration) :
    weight (some d) = if d.asMillis < 2 ^ 64 then max (1000 / max d.asMillis 1) 1 else 1000 := by
  have hweight : weight (some d) =
      max (1000 / max ((tryFrom 64 d.asMillis).getD 1) 1) 1 := tryFrom_quotient _
  rw [hweight, max_tryFrom_getD le_rfl]
  split
  · rfl
  · rfl

/-- The two computations agree: both fallbacks become 1. -/
theorem calculateWeight_eq (d : Duration) : calculateWeight d = weight (some d) := by
  have hcalculate : calculateWeight d =
      max (1000 / max ((tryFrom 64 d.asMillis).getD 0) 1) 1 := tryFrom_quotient _
  have hweight : weight (some d) =
      max (1000 / max ((tryFrom 64 d.asMillis).getD 1) 1) 1 := tryFrom_quotient _
  rw [hcalculate, hweight, max_tryFrom_getD (Nat.zero_le 1), max_tryFrom_getD le_rfl]

/-- The largest weight is that of the shortest round-trip times and of those that do not fit. -/
theorem weight_eq_max_iff {d : Duration} :
    1000 ≤ weight (some d) ↔ d.asMillis ≤ 1 ∨ 2 ^ 64 ≤ d.asMillis := by
  rw [weight_some]
  split
  · rename_i hlt
    constructor
    · intro hle
      by_contra hlarge
      -- two milliseconds halve the weight
      have hdiv : 1000 / max d.asMillis 1 ≤ 1000 / 2 :=
        Nat.div_le_div_left (by omega) (by decide)
      omega
    · rintro (hle | hle)
      · have hone : max d.asMillis 1 = 1 := by omega
        rw [hone]
        decide
      · omega
  · rename_i hge
    exact iff_of_true le_rfl (.inr (by omega))

/-- **Which of two weights is the larger one.** -/
theorem weight_le_weight_iff {d₁ d₂ : Duration} (h : d₁ ≤ d₂) :
    weight (some d₂) ≤ weight (some d₁) ↔
      d₂.asMillis < 2 ^ 64 ∨ d₁.asMillis ≤ 1 ∨ 2 ^ 64 ≤ d₁.asMillis := by
  have hms := Duration.asMillis_mono h
  by_cases hfits : d₂.asMillis < 2 ^ 64
  · refine iff_of_true ?_ (.inl hfits)
    have hdiv : 1000 / max d₂.asMillis 1 ≤ 1000 / max d₁.asMillis 1 :=
      Nat.div_le_div_left (by omega) (by omega)
    rw [weight_some, weight_some, if_pos hfits, if_pos (by omega)]
    omega
  · have hmax : weight (some d₂) = 1000 := by rw [weight_some, if_neg hfits]
    rw [hmax, weight_eq_max_iff]
    simp only [hfits, false_or]

/-- **Weights and round-trip times.** `calculate_weight` and the weight that `rebuild` computes are
equal and in `1..1000`. Of two round-trip times the longer one has no larger weight if and only
if it is below `2 ^ 64` milliseconds, or the shorter one has the largest weight already: it is
below two milliseconds, or it does not fit 64 bits either. -/
theorem weights_ordered_iff (d₁ d₂ : Duration) :
    (calculateWeight d₁ = weight (some d₁) ∧ 1 ≤ calculateWeight d₁ ∧
      calculateWeight d₁ ≤ 1000) ∧
    (d₁ ≤ d₂ → (calculateWeight d₂ ≤ calculateWeight d₁ ↔
      d₂.asMillis < 2 ^ 64 ∨ d₁.asMillis ≤ 1 ∨ 2 ^ 64 ≤ d₁.asMillis)) := by
  refine ⟨⟨calculateWeight_eq d₁, ?_, ?_⟩, fun h => ?_⟩
  · rw [calculateWeight_eq]
    exact weight_pos (some d₁)
  · rw [calculateWeight_eq]
    exact weight_le (some d₁)
  · rw [calculateWeight_eq, calculateWeight_eq]
    exact weight_le_weight_iff h

/-- 10 ms and 100 ms are in order. -/
theorem weights_ordered_tenMillis :
    (Duration.fromMillis 10) ≤ .fromMillis 100 ∧
      calculateWeight (.fromMillis 100) ≤ calculateWeight (.fromMillis 10) := by
  have hle : Duration.fromMillis 10 ≤ .fromMillis 100 := by decide
  exact ⟨hle, ((weights_ordered_iff _ _).2 hle).mpr (.inl (by decide))⟩

/-- A backend at one second and one at `Duration::MAX`. -/
def farView : PoolView := ⟨"h", [{ rtt := some (.fromSecs 1) }, { rtt := some .MAX }]⟩

/-- The longest round-trip time has the largest weight, and its backend is picked most. -/
theorem longest_rtt_preferred :
    (Duration.fromSecs 1) ≤ .MAX ∧
      weight (some (.fromSecs 1)) = 1 ∧ calculateWeight (.fromSecs 1) = 1 ∧
      weight (some .MAX) = 1000 ∧ calculateWeight .MAX = 1000 ∧
      ends (fun s v => (pick .release s v).map Prod.snd)
        (fun s => s.picks = [1, 4]) .new (List.replicate 5 farView) = true := by
  decide

/-- **The slower backend is not picked more often**, in whole rounds of picks, exactly where the
weights are in order. -/
theorem count_le_count_iff {d₁ d₂ : Duration} (h : d₁ ≤ d₂) {rtts : List (Option Duration)}
    {i j k : ℕ} (hi : rtts[i]? = some (some d₁)) (hj : rtts[j]? = some (some d₂)) (hk : 0 < k)
    {s : WeightedRoundRobin} {views : List PoolView} (hs : s.rtts ≠ rtts)
    (hviews : ∀ v ∈ views, v.rtts = rtts) (hlen : views.length = k * totalWeight rtts)
    (hfits : 1000 * views.length < 2 ^ 64) :
    ∃ outs s', trace (pick .release) s views = .ok (outs, s') ∧
      (outs.count j ≤ outs.count i ↔
        d₂.asMillis < 2 ^ 64 ∨ d₁.asMillis ≤ 1 ∨ 2 ^ 64 ≤ d₁.asMillis) := by
  have hne : rtts ≠ [] := by
    rintro rfl
    simp at hi
  obtain ⟨outs, s', htrace, hcount, -, hserving, hsum⟩ :=
    trace_serving (serving_zero hs) hne hviews (by simpa using hfits)
  simp only [Nat.zero_add, Finset.sum_const_zero] at hserving hsum
  rw [hcount, hlen] at hsum
  refine ⟨outs, s', htrace, ?_⟩
  rw [hserving.exact hsum (List.getElem?_eq_some_iff.mp hi).1,
    hserving.exact hsum (List.getElem?_eq_some_iff.mp hj).1, weightAt_of_getElem? hi,
    weightAt_of_getElem? hj, Nat.mul_le_mul_left_iff hk, weight_le_weight_iff h]

end WeightedRoundRobin

end RotaLb
