import Mathlib.Algebra.BigOperators.Ring.Finset
import Mathlib.Algebra.Order.BigOperators.Group.Finset
import Mathlib.Algebra.Order.Field.Rat
import Mathlib.Data.Int.CardIntervalMod
import Mathlib.Data.Prod.Lex
import RotaLb.Scan

/-!
# Serving the Least-Served First

Clients `0, …, n - 1` with weights `w` are served one at a time, each time the first client
that was served least for its weight. Client `i` having been served `a` times, its next turn
stands at `turn w a i`, that is at `a / w i`, ties broken by the number of the client: the
rule serves the turns in this order.

`Fair w p n` says that the counts `p` can come from this rule: no client was given a turn
before another's earlier one.

## Main results

* `Fair.serve`: **the rule keeps the counts fair**.
* `Fair.cross`: the two-index inequality between fair counts.
* `Fair.exact`: **fair counts that differ by a whole number of rounds differ by exactly that
  many weights**, wherever the rounds begin.
* `Fair.served`, `Fair.last_unserved`: from nothing, all clients are served in the first `n`
  turns, and the last of them not before.
* `Even.serve`: with equal weights, **serving any least-served client keeps all counts within
  one of each other**, however ties are broken.
* `even_rounds`, `rounds_self`: so does **going round** from any client, and `n` turns give each
  client exactly one.
-/

namespace Apportion

open Scan

variable {n : ℕ} {w p q : ℕ → ℕ} {i j a b k : ℕ}

/-- How much a client was served for its weight. -/
def share (w p : ℕ → ℕ) (i : ℕ) : ℚ := p i / w i

/-- The place of a turn in the order of service. -/
def turn (w : ℕ → ℕ) (a i : ℕ) : ℚ ×ₗ ℕ := toLex ((a : ℚ) / w i, i)

/-- The last turn a client was given does not come after the next turn of any client. -/
def Fair (w p : ℕ → ℕ) (n : ℕ) : Prop :=
  ∀ i < n, ∀ j < n, 1 ≤ p i → turn w (p i - 1) i ≤ turn w (p j) j

/-- The counts after one more turn of `b`. -/
def serve (p : ℕ → ℕ) (b : ℕ) : ℕ → ℕ := Function.update p b (p b + 1)

theorem serve_self : serve p b b = p b + 1 := Function.update_self ..

theorem serve_of_ne (h : i ≠ b) : serve p b i = p i := Function.update_of_ne h ..

/-! ### The order of the turns -/

theorem turn_le_iff :
    turn w a i ≤ turn w b j ↔ (a : ℚ) / w i < b / w j ∨ (a : ℚ) / w i = b / w j ∧ i ≤ j :=
  Prod.Lex.toLex_le_toLex

/-- A client's turns come one after the other. -/
theorem turn_mono (h : a ≤ b) : turn w a i ≤ turn w b i := by
  have hle : (a : ℚ) / w i ≤ b / w i :=
    div_le_div_of_nonneg_right (Nat.cast_le.mpr h) (Nat.cast_nonneg _)
  rw [turn_le_iff]
  exact hle.lt_or_eq.imp_right fun heq => ⟨heq, le_rfl⟩

/-- Cross multiplication: the order of the turns without the division. -/
theorem turn_le_iff_mul (hi : 0 < w i) (hj : 0 < w j) :
    turn w a i ≤ turn w b j ↔ a * w j < b * w i ∨ a * w j = b * w i ∧ i ≤ j := by
  have hi' : (0 : ℚ) < w i := Nat.cast_pos.mpr hi
  have hj' : (0 : ℚ) < w j := Nat.cast_pos.mpr hj
  rw [turn_le_iff, div_lt_div_iff₀ hi' hj', div_eq_div_iff hi'.ne' hj'.ne']
  exact_mod_cast Iff.rfl

/-- A round later every turn comes `k` further on. -/
theorem turn_add_mul_le_iff (hi : 0 < w i) (hj : 0 < w j) :
    turn w (a + k * w i) i ≤ turn w (b + k * w j) j ↔ turn w a i ≤ turn w b j := by
  have hcomm : k * w i * w j = k * w j * w i := Nat.mul_right_comm k (w i) (w j)
  rw [turn_le_iff_mul hi hj, turn_le_iff_mul hi hj, Nat.add_mul, Nat.add_mul, hcomm]
  omega

/-- The scan for the least share finds the client whose turn comes first. -/
theorem turn_le_of_isFirstMin (h : IsFirstMin (share w p) n b) (hj : j < n) :
    turn w (p b) b ≤ turn w (p j) j := by
  rw [turn_le_iff]
  rcases (h.le j hj).lt_or_eq with hlt | heq
  · exact .inl hlt
  · refine .inr ⟨heq, not_lt.mp fun hjb => ?_⟩
    exact (h.first j hjb).ne heq

/-! ### Fair counts -/

/-- Nothing served yet. -/
theorem fair_zero : Fair w (fun _ => 0) n :=
  fun _ _ _ _ h => absurd h (Nat.not_succ_le_zero 0)

/-- **Serving the least-served client keeps the counts fair.** -/
theorem Fair.serve (h : Fair w p n) (hb : IsFirstMin (share w p) n b) : Fair w (serve p b) n := by
  intro i hi j hj hserved
  -- the next turn of no client moves forward
  have hlater : turn w (p j) j ≤ turn w (Apportion.serve p b j) j := by
    refine turn_mono ?_
    by_cases hjb : j = b
    · rw [hjb, serve_self]
      exact Nat.le_succ _
    · rw [serve_of_ne hjb]
  refine le_trans ?_ hlater
  by_cases hib : i = b
  · rw [hib, serve_self, Nat.add_sub_cancel]
    exact turn_le_of_isFirstMin hb hj
  · rw [serve_of_ne hib] at hserved ⊢
    exact h i hi j hj hserved

/-- One more turn given out. -/
theorem sum_serve (hb : b < n) :
    ∑ i ∈ Finset.range n, serve p b i = ∑ i ∈ Finset.range n, p i + 1 := by
  have hmem : b ∈ Finset.range n := Finset.mem_range.mpr hb
  rw [serve, Finset.sum_update_of_mem hmem, Finset.sdiff_singleton_eq_erase, Nat.add_right_comm,
    Finset.add_sum_erase _ p hmem]

/-- A list of turns given out, one by one. -/
theorem serve_add_count (outs : List ℕ) :
    serve (fun i => p i + outs.count i) b = fun i => p i + (outs ++ [b]).count i := by
  funext i
  by_cases hib : i = b
  · subst hib
    rw [serve_self]
    simp [Nat.add_assoc]
  · rw [serve_of_ne hib]
    simp [Ne.symm hib]

/-- The numbers of a list, added up by position. -/
theorem sum_getD (l : List ℕ) : ∑ i ∈ Finset.range l.length, l.getD i 0 = l.sum := by
  induction l with
  | nil => rfl
  | cons a l ih =>
      rw [List.length_cons, Finset.sum_range_succ', List.sum_cons, ← ih, Nat.add_comm]
      rfl

/-! ### Equal weights -/

/-- No two clients were served more than one turn apart. -/
def Even (p : ℕ → ℕ) (n : ℕ) : Prop := ∀ i < n, ∀ j < n, p i ≤ p j + 1

theorem even_zero : Even (fun _ => 0) n := fun _ _ _ _ => Nat.zero_le _

/-- **Serving a least-served client keeps the counts even.** -/
theorem Even.serve (h : Even p n) (hb : ∀ j < n, p b ≤ p j) : Even (serve p b) n := by
  intro i hi j hj
  have hgrows : p j ≤ Apportion.serve p b j := by
    by_cases hjb : j = b
    · rw [hjb, serve_self]
      exact Nat.le_succ _
    · rw [serve_of_ne hjb]
  by_cases hib : i = b
  · rw [hib, serve_self]
    exact Nat.succ_le_succ ((hb j hj).trans hgrows)
  · rw [serve_of_ne hib]
    exact (h i hi j hj).trans (Nat.succ_le_succ hgrows)

/-- A least-served client was served less than `c` times in less than `n * c` turns. -/
theorem lt_of_sum_lt {c : ℕ} (hb : ∀ j < n, p b ≤ p j)
    (hsum : ∑ i ∈ Finset.range n, p i < n * c) : p b < c := by
  by_contra hle
  have hall : ∀ i ∈ Finset.range n, c ≤ p i := fun i hi =>
    (not_lt.mp hle).trans (hb i (Finset.mem_range.mp hi))
  have hge := Finset.card_nsmul_le_sum (Finset.range n) p c hall
  rw [Finset.card_range, nsmul_eq_mul, Nat.cast_id] at hge
  exact absurd hsum (not_lt.mpr hge)

/-! ### Going round -/

/-- How often client `i` has its turn when `m` turns go round from client `c`. -/
def rounds (c n m i : ℕ) : ℕ := Nat.count (fun k => (c + k) % n = i) m

/-- The next turn. -/
theorem rounds_succ (c n m : ℕ) : rounds c n (m + 1) = serve (rounds c n m) ((c + m) % n) := by
  funext i
  rw [rounds, Nat.count_succ]
  by_cases hi : i = (c + m) % n
  · rw [hi, serve_self, if_pos rfl]
    rfl
  · rw [serve_of_ne hi, if_neg (Ne.symm hi)]
    rfl

/-- Client `i` has one turn in every full round, and one more if the round begun has come past
it. -/
theorem rounds_eq (c m : ℕ) (hi : i < n) :
    rounds c n m i = m / n + if (i + (n - c % n)) % n < m % n then 1 else 0 := by
  have hn : 0 < n := Nat.zero_lt_of_lt hi
  have hc : c % n < n := Nat.mod_lt c hn
  have hturn : ∀ k, (c + k) % n = i ↔ k ≡ i + (n - c % n) [MOD n] := by
    intro k
    have hshift : i + (n - c % n) + c % n = i + n := by omega
    calc (c + k) % n = i ↔ (k + c % n) % n = (i + n) % n := by
          rw [Nat.add_mod_mod, Nat.add_comm k c, Nat.add_mod_right, Nat.mod_eq_of_lt hi]
      _ ↔ k + c % n ≡ i + (n - c % n) + c % n [MOD n] := by rw [hshift]; exact Iff.rfl
      _ ↔ k ≡ i + (n - c % n) [MOD n] :=
          ⟨fun h => h.add_right_cancel' _, fun h => h.add_right _⟩
  rw [← Nat.count_modEq_card m hn, rounds, Nat.count_eq_card_filter_range,
    Nat.count_eq_card_filter_range]
  simp only [hturn]

/-- **Going round serves evenly**, from any client and for any number of turns. -/
theorem even_rounds (c n m : ℕ) : Even (rounds c n m) n := by
  intro i hi j hj
  rw [rounds_eq c m hi, rounds_eq c m hj]
  split <;> split <;> omega

/-- Once round is one turn for everybody. -/
theorem rounds_self (c : ℕ) (hi : i < n) : rounds c n n i = 1 := by
  rw [rounds_eq c n hi, Nat.mod_self, Nat.div_self (Nat.zero_lt_of_lt hi)]
  rfl

section Positive

variable (hw : ∀ i < n, 0 < w i)
include hw

/-- **The two-index inequality.** -/
theorem Fair.cross (h : Fair w p n) (hi : i < n) (hj : j < n) (hserved : 1 ≤ p i) :
    (p i - 1) * w j ≤ p j * w i := by
  rcases (turn_le_iff_mul (hw i hi) (hw j hj)).mp (h i hi j hj hserved) with hlt | ⟨heq, -⟩
  · exact hlt.le
  · exact heq.le

/-- No client is ahead of its `k` weights while another is behind. -/
theorem Fair.not_apart (hp : Fair w p n) (hq : Fair w q n) (hi : i < n) (hj : j < n)
    (hahead : p i + k * w i < q i) (hbehind : q j < p j + k * w j) : False := by
  have hwi := hw i hi
  have hwj := hw j hj
  -- the turn of `i` after its `k` weights was given, the one of `j` before them was not
  have hchain : turn w (p i + k * w i) i ≤ turn w (p j + k * w j - 1) j :=
    calc turn w (p i + k * w i) i ≤ turn w (q i - 1) i := turn_mono (by omega)
      _ ≤ turn w (q j) j := hq i hi j hj (by omega)
      _ ≤ turn w (p j + k * w j - 1) j := turn_mono (by omega)
  rcases Nat.eq_zero_or_pos (p j) with hzero | hpos
  · have hcross := (turn_le_iff_mul hwi hwj).mp hchain
    have hlt : (p j + k * w j - 1) * w i < k * w j * w i :=
      Nat.mul_lt_mul_of_pos_right (by omega) hwi
    have hcomm : k * w i * w j = k * w j * w i := Nat.mul_right_comm k (w i) (w j)
    rw [Nat.add_mul, hcomm] at hcross
    omega
  · rw [show p j + k * w j - 1 = p j - 1 + k * w j by omega,
      turn_add_mul_le_iff hwi hwj] at hchain
    have heq : turn w (p i) i = turn w (p j - 1) j := le_antisymm hchain (hp j hj i hi hpos)
    have hij : i = j := congrArg (fun t => (ofLex t).2) heq
    subst hij
    omega

/-- **Exact shares.** Fair counts that are `k` rounds of all the weights apart differ by
exactly `k` weights for each client. -/
theorem Fair.exact (hp : Fair w p n) (hq : Fair w q n)
    (hsum : ∑ i ∈ Finset.range n, q i =
      ∑ i ∈ Finset.range n, p i + k * ∑ i ∈ Finset.range n, w i) (hi : i < n) :
    q i = p i + k * w i := by
  rw [Finset.mul_sum, ← Finset.sum_add_distrib] at hsum
  rcases Nat.lt_trichotomy (q i) (p i + k * w i) with hlt | heq | hgt
  · -- somebody else must be ahead
    obtain ⟨j, hj, hahead⟩ : ∃ j ∈ Finset.range n, p j + k * w j < q j := by
      by_contra hnone
      push Not at hnone
      exact absurd hsum (Finset.sum_lt_sum hnone ⟨i, Finset.mem_range.mpr hi, hlt⟩).ne
    exact (hp.not_apart hw hq (Finset.mem_range.mp hj) hi hahead hlt).elim
  · exact heq
  · obtain ⟨j, hj, hbehind⟩ : ∃ j ∈ Finset.range n, q j < p j + k * w j := by
      by_contra hnone
      push Not at hnone
      exact absurd hsum (Finset.sum_lt_sum hnone ⟨i, Finset.mem_range.mpr hi, hgt⟩).ne'
    exact (hp.not_apart hw hq hi (Finset.mem_range.mp hj) hgt hbehind).elim

/-- A client that was not served yet holds every other one to a single turn, and those after
it to none. -/
theorem Fair.le_one_of_unserved (h : Fair w p n) (hi : i < n) (hj : j < n) (hzero : p j = 0) :
    p i ≤ 1 ∧ (j ≤ i → p i = 0) := by
  by_cases hserved : 1 ≤ p i
  · have hturn := (turn_le_iff_mul (hw i hi) (hw j hj)).mp (h i hi j hj hserved)
    rw [hzero, Nat.zero_mul] at hturn
    obtain ⟨hmul, hij⟩ := hturn.resolve_left (Nat.not_lt_zero _)
    have hone : p i - 1 = 0 := (Nat.mul_eq_zero.mp hmul).resolve_right (hw j hj).ne'
    refine ⟨by omega, fun hji => ?_⟩
    obtain rfl : i = j := le_antisymm hij hji
    exact hzero
  · omega

/-- After `n` turns every client was served. -/
theorem Fair.served (h : Fair w p n) (hsum : n ≤ ∑ i ∈ Finset.range n, p i) (hj : j < n) :
    1 ≤ p j := by
  by_contra hzero
  have hmem : j ∈ Finset.range n := Finset.mem_range.mpr hj
  have hle : ∀ i ∈ Finset.range n, p i ≤ 1 := fun i hi =>
    (h.le_one_of_unserved hw (Finset.mem_range.mp hi) hj (by omega)).1
  have hlt := Finset.sum_lt_sum hle ⟨j, hmem, by omega⟩
  rw [← Finset.card_eq_sum_ones, Finset.card_range] at hlt
  omega

/-- Before `n` turns the last client was not served. -/
theorem Fair.last_unserved (h : Fair w p n) (hsum : ∑ i ∈ Finset.range n, p i < n) :
    p (n - 1) = 0 := by
  by_contra hserved
  have hall : ∀ i ∈ Finset.range n, 1 ≤ p i := by
    intro i hi
    by_contra hzero
    have hi' := Finset.mem_range.mp hi
    exact hserved ((h.le_one_of_unserved hw (i := n - 1) (by omega) hi' (by omega)).2 (by omega))
  have hle := Finset.sum_le_sum hall
  rw [← Finset.card_eq_sum_ones, Finset.card_range] at hle
  omega

end Positive

end Apportion
