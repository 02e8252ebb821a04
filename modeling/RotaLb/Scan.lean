import Mathlib.Data.Nat.Basic
import Mathlib.Data.Prod.Lex
import Mathlib.Order.Lattice
import Mathlib.Tactic.Common

/-!
# Indexed Loops and the First Minimum

Two loop shapes and what a scan for a minimum returns.

* `forEnum` and `forEnumM` run a body over a list with its positions, threading an
  accumulator; `forEnumM` stops at the first error. `forRangeM` runs a body over an
  interval of indices.
* `IsFirstMin key n b` says that `b` is the first of the indices below `n` at which `key`
  is least: what a left-to-right scan returns when it moves only on a strictly smaller
  key.

## Main results

* `forEnum_rule`, `forEnumM_rule`, `forRangeM_rule`: **the loop rules** — an invariant
  indexed by the position and kept by the body holds at the end.
* `forEnumM_rounds`, `forRangeM_rounds`: a loop that returned went through all its rounds.
* `forEnumM_mono`, `forRangeM_mono`: a body that fails less often changes no result.
* `IsFirstMin.step`: one step of the scan.
* `isFirstMin_iff_lex`: the first minimum is the least index in the order of `(key, index)`.
* `IsFirstMin.ne_iff`: a scan passes over an index exactly when another index beats it.
-/

namespace Scan

/-! ### Loops -/

section Loops

variable {α σ ε : Type*}

/-- `for (i, a) in l.iter().enumerate()`, from position `i`, with a body that returns. -/
def forEnumFrom (body : σ → ℕ → α → σ) : ℕ → List α → σ → σ
  | _, [], s => s
  | i, a :: l, s => forEnumFrom body (i + 1) l (body s i a)

/-- `for (i, a) in l.iter().enumerate()` with a body that returns. -/
def forEnum (l : List α) (init : σ) (body : σ → ℕ → α → σ) : σ :=
  forEnumFrom body 0 l init

/-- `for (i, a) in l.iter().enumerate()`, from position `i`, with a body that may fail. -/
def forEnumFromM (body : σ → ℕ → α → Except ε σ) : ℕ → List α → σ → Except ε σ
  | _, [], s => .ok s
  | i, a :: l, s =>
    match body s i a with
    | .ok s' => forEnumFromM body (i + 1) l s'
    | .error e => .error e

/-- `for (i, a) in l.iter().enumerate()` with a body that may fail. -/
def forEnumM (l : List α) (init : σ) (body : σ → ℕ → α → Except ε σ) : Except ε σ :=
  forEnumFromM body 0 l init

/-- `for i in lo..lo + n` with a body that may fail. -/
def forRangeM (lo : ℕ) : ℕ → σ → (σ → ℕ → Except ε σ) → Except ε σ
  | 0, s, _ => .ok s
  | n + 1, s, body =>
    match body s lo with
    | .ok s' => forRangeM (lo + 1) n s' body
    | .error e => .error e

/-- The rule of `forEnumFrom`: the list is the rest of a longer one from position `i`. -/
theorem forEnumFrom_rule {f : σ → ℕ → α → σ} {P : ℕ → σ → Prop} {l : List α}
    {i : ℕ} {s : σ} (h0 : P i s)
    (hstep : ∀ k a s, l[k]? = some a → P (i + k) s → P (i + k + 1) (f s (i + k) a)) :
    P (i + l.length) (forEnumFrom f i l s) := by
  induction l generalizing i s with
  | nil => exact h0
  | cons a l ih =>
      have h1 : P (i + 1) (f s i a) := hstep 0 a s rfl h0
      have h2 := ih h1 fun k b t hk ht => by
        have := hstep (k + 1) b t hk (by rwa [Nat.add_right_comm] at ht)
        rwa [← Nat.add_assoc, Nat.add_right_comm i k 1] at this
      rwa [List.length_cons, ← Nat.add_assoc, Nat.add_right_comm]

/-- **The loop rule.** An invariant kept by the body at every position holds at the
end. -/
theorem forEnum_rule {f : σ → ℕ → α → σ} {P : ℕ → σ → Prop} {l : List α} {s₀ : σ}
    (h0 : P 0 s₀)
    (hstep : ∀ i a s, l[i]? = some a → P i s → P (i + 1) (f s i a)) :
    P l.length (forEnum l s₀ f) := by
  have := forEnumFrom_rule (l := l) (i := 0) (s := s₀) (f := f) (P := P) h0
    fun k a s hk hs => by
      rw [Nat.zero_add] at hs ⊢
      exact hstep k a s hk hs
  rwa [Nat.zero_add] at this

/-- The rule of `forEnumFromM`. -/
theorem forEnumFromM_rule {f : σ → ℕ → α → Except ε σ} {P : ℕ → σ → Prop} {l : List α}
    {i : ℕ} {s : σ} (h0 : P i s)
    (hstep : ∀ k a s, l[k]? = some a → P (i + k) s →
      ∃ s', f s (i + k) a = .ok s' ∧ P (i + k + 1) s') :
    ∃ s', forEnumFromM f i l s = .ok s' ∧ P (i + l.length) s' := by
  induction l generalizing i s with
  | nil => exact ⟨s, rfl, h0⟩
  | cons a l ih =>
      obtain ⟨s₁, hb, h1⟩ := hstep 0 a s rfl h0
      have h2 := ih h1 fun k b t hk ht => by
        have := hstep (k + 1) b t hk (by rwa [Nat.add_right_comm] at ht)
        rwa [← Nat.add_assoc, Nat.add_right_comm i k 1] at this
      obtain ⟨s', hs', hP⟩ := h2
      refine ⟨s', ?_, ?_⟩
      · rw [forEnumFromM, show f s i a = .ok s₁ from hb]
        exact hs'
      · rwa [List.length_cons, ← Nat.add_assoc, Nat.add_right_comm]

/-- **The loop rule with failure.** If the body returns and keeps the invariant at every
position, the loop returns and the invariant holds at the end. -/
theorem forEnumM_rule {f : σ → ℕ → α → Except ε σ} {P : ℕ → σ → Prop} {l : List α}
    {s₀ : σ} (h0 : P 0 s₀)
    (hstep : ∀ i a s, l[i]? = some a → P i s → ∃ s', f s i a = .ok s' ∧ P (i + 1) s') :
    ∃ s', forEnumM l s₀ f = .ok s' ∧ P l.length s' := by
  have := forEnumFromM_rule (l := l) (i := 0) (s := s₀) (f := f) (P := P) h0
    fun k a s hk hs => by
      rw [Nat.zero_add] at hs ⊢
      exact hstep k a s hk hs
  rwa [Nat.zero_add] at this

/-- **The loop rule over an interval.** -/
theorem forRangeM_rule {body : σ → ℕ → Except ε σ} {P : ℕ → σ → Prop} {lo n : ℕ} {s : σ}
    (h0 : P lo s)
    (hstep : ∀ i s, lo ≤ i → i < lo + n → P i s → ∃ s', body s i = .ok s' ∧ P (i + 1) s') :
    ∃ s', forRangeM lo n s body = .ok s' ∧ P (lo + n) s' := by
  induction n generalizing lo s with
  | zero => exact ⟨s, rfl, h0⟩
  | succ n ih =>
      obtain ⟨s₁, hb, h1⟩ := hstep lo s le_rfl (by omega) h0
      obtain ⟨s', hs', hP⟩ := ih h1 fun i t hi hlt ht => hstep i t (by omega) (by omega) ht
      refine ⟨s', ?_, ?_⟩
      · rw [forRangeM, hb]
        exact hs'
      · rwa [Nat.add_assoc, Nat.add_comm 1 n] at hP

/-- What the body keeps whenever it returns holds at the end of an interval that was gone
through. -/
theorem forRangeM_invariant {body : σ → ℕ → Except ε σ} {P : ℕ → σ → Prop} {lo n : ℕ} {s s' : σ}
    (h0 : P lo s)
    (hstep : ∀ i s s', lo ≤ i → i < lo + n → P i s → body s i = .ok s' → P (i + 1) s')
    (h : forRangeM lo n s body = .ok s') : P (lo + n) s' := by
  induction n generalizing lo s with
  | zero =>
      cases h
      exact h0
  | succ n ih =>
      rw [forRangeM] at h
      split at h
      · rename_i s₁ hb
        have h1 := hstep lo s s₁ le_rfl (by omega) h0 hb
        have hlast := ih h1 (fun i t t' hi hlt ht => hstep i t t' (by omega) (by omega) ht) h
        rwa [Nat.add_assoc, Nat.add_comm 1 n] at hlast
      · cases h

/-- Every round of an interval that was gone through has returned, from a state in which the
invariant held. -/
theorem forRangeM_rounds {body : σ → ℕ → Except ε σ} {P : ℕ → σ → Prop} {lo n : ℕ} {s s' : σ}
    (h0 : P lo s)
    (hstep : ∀ i s s', lo ≤ i → i < lo + n → P i s → body s i = .ok s' → P (i + 1) s')
    (h : forRangeM lo n s body = .ok s') {i : ℕ} (hlo : lo ≤ i) (hi : i < lo + n) :
    ∃ t t', P i t ∧ body t i = .ok t' := by
  induction n generalizing lo s with
  | zero => omega
  | succ n ih =>
      rw [forRangeM] at h
      split at h
      · rename_i s₁ hb
        rcases Nat.eq_or_lt_of_le hlo with rfl | hlt
        · exact ⟨s, s₁, h0, hb⟩
        · have h1 := hstep lo s s₁ le_rfl (by omega) h0 hb
          exact ih h1 (fun i t t' hi hlt ht => hstep i t t' (by omega) (by omega) ht) h hlt
            (by omega)
      · cases h

/-- Every round of a list that was gone through has returned. -/
theorem forEnumM_rounds {f : σ → ℕ → α → Except ε σ} {l : List α} {s s' : σ}
    (h : forEnumM l s f = .ok s') {a : α} (ha : a ∈ l) : ∃ i t t', f t i a = .ok t' := by
  have hfrom : ∀ {l : List α} {i : ℕ} {s : σ}, forEnumFromM f i l s = .ok s' → a ∈ l →
      ∃ i t t', f t i a = .ok t' := by
    intro l
    induction l with
    | nil => exact fun _ hmem => absurd hmem List.not_mem_nil
    | cons b l ih =>
        intro i s h hmem
        rw [forEnumFromM] at h
        split at h
        · rename_i s₁ hb
          rcases List.mem_cons.mp hmem with rfl | hmem
          · exact ⟨i, s, s₁, hb⟩
          · exact ih h hmem
        · cases h
  exact hfrom h ha

/-- A loop that returns still returns the same when its body fails less often. -/
theorem forEnumM_mono {f g : σ → ℕ → α → Except ε σ} {l : List α} {s s' : σ}
    (hfg : ∀ s i a s', f s i a = .ok s' → g s i a = .ok s') (h : forEnumM l s f = .ok s') :
    forEnumM l s g = .ok s' := by
  have hfrom : ∀ {l : List α} {i : ℕ} {s : σ}, forEnumFromM f i l s = .ok s' →
      forEnumFromM g i l s = .ok s' := by
    intro l
    induction l with
    | nil => exact fun h => h
    | cons a l ih =>
        intro i s h
        rw [forEnumFromM] at h
        split at h
        · rename_i s₁ hb
          rw [forEnumFromM, hfg s i a s₁ hb]
          exact ih h
        · cases h
  exact hfrom h

/-- The same over an interval. -/
theorem forRangeM_mono {f g : σ → ℕ → Except ε σ} {lo n : ℕ} {s s' : σ}
    (hfg : ∀ s i s', f s i = .ok s' → g s i = .ok s') (h : forRangeM lo n s f = .ok s') :
    forRangeM lo n s g = .ok s' := by
  induction n generalizing lo s with
  | zero => exact h
  | succ n ih =>
      rw [forRangeM] at h
      split at h
      · rename_i s₁ hb
        rw [forRangeM, hfg s lo s₁ hb]
        exact ih h
      · cases h

end Loops

/-! ### The first minimum -/

section FirstMin

variable {κ : Type*} [LinearOrder κ] {key : ℕ → κ} {n b i : ℕ}

/-- `b` is the first of the indices below `n` at which `key` is least. -/
structure IsFirstMin (key : ℕ → κ) (n b : ℕ) : Prop where
  lt : b < n
  le : ∀ j < n, key b ≤ key j
  first : ∀ j < b, key b < key j

/-- Some index below `n` comes before `i` in the order of `(key, index)`. -/
def Beaten (key : ℕ → κ) (n i : ℕ) : Prop :=
  ∃ j < n, key j < key i ∨ (key j = key i ∧ j < i)

instance (key : ℕ → κ) (n i : ℕ) : Decidable (Beaten key n i) :=
  inferInstanceAs (Decidable (∃ j, j < n ∧ _))

/-- The scan starts at the first element. -/
theorem isFirstMin_one : IsFirstMin key 1 0 where
  lt := Nat.one_pos
  le j hj := by
    obtain rfl : j = 0 := by omega
    exact le_rfl
  first j hj := by omega

/-- **One step of the scan**: the next element replaces the best one only when its key is
strictly smaller. -/
theorem IsFirstMin.step (h : IsFirstMin key n b) :
    IsFirstMin key (n + 1) (if key n < key b then n else b) := by
  split
  · rename_i hlt
    refine ⟨Nat.lt_succ_self n, fun j hj => ?_, fun j hj => hlt.trans_le (h.le j hj)⟩
    rcases Nat.lt_succ_iff_lt_or_eq.mp hj with hj | rfl
    · exact hlt.le.trans (h.le j hj)
    · exact le_rfl
  · rename_i hge
    refine ⟨h.lt.trans (Nat.lt_succ_self n), fun j hj => ?_, h.first⟩
    rcases Nat.lt_succ_iff_lt_or_eq.mp hj with hj | rfl
    · exact h.le j hj
    · exact not_lt.mp hge

/-- **The first minimum is the least index in the order of `(key, index)`.** -/
theorem isFirstMin_iff_lex :
    IsFirstMin key n b ↔ b < n ∧ ∀ j < n, toLex (key b, b) ≤ toLex (key j, j) := by
  constructor
  · intro h
    refine ⟨h.lt, fun j hj => Prod.Lex.toLex_le_toLex.mpr ?_⟩
    rcases (h.le j hj).lt_or_eq with hlt | heq
    · exact .inl hlt
    · exact .inr ⟨heq, not_lt.mp fun hjb => (h.first j hjb).ne heq⟩
  · rintro ⟨hlt, hle⟩
    have hlex (j : ℕ) (hj : j < n) := Prod.Lex.toLex_le_toLex.mp (hle j hj)
    refine ⟨hlt, fun j hj => ?_, fun j hjb => ?_⟩
    · rcases hlex j hj with h | ⟨h, -⟩
      · exact h.le
      · exact h.le
    · rcases hlex j (hjb.trans hlt) with h | ⟨-, h⟩
      · exact h
      · exact absurd hjb (not_lt.mpr h)

/-- There is one first minimum. -/
theorem IsFirstMin.unique {b' : ℕ} (h : IsFirstMin key n b) (h' : IsFirstMin key n b') :
    b = b' := by
  have hle := (isFirstMin_iff_lex.mp h).2 b' h'.lt
  have hge := (isFirstMin_iff_lex.mp h').2 b h.lt
  exact congrArg (fun x => (ofLex x).2) (le_antisymm hle hge)

/-- The scan of one element or more has a first minimum. -/
theorem exists_isFirstMin (key : ℕ → κ) (hn : 0 < n) : ∃ b, IsFirstMin key n b := by
  induction n, hn using Nat.le_induction with
  | base => exact ⟨0, isFirstMin_one⟩
  | succ n _ ih =>
      obtain ⟨b, hb⟩ := ih
      exact ⟨_, hb.step⟩

/-- The accumulator of a scan that starts from index 0 with a sentinel key: the sentinel
itself before the first element, the first minimum and its key from then on. -/
def Best (key : ℕ → κ) (top : κ) (n : ℕ) (best : ℕ × κ) : Prop :=
  (n = 0 ∧ best = (0, top)) ∨ (IsFirstMin key n best.1 ∧ best.2 = key best.1)

/-- A scan with a sentinel starts in its initial accumulator. -/
theorem best_zero {top : κ} : Best key top 0 (0, top) := .inl ⟨rfl, rfl⟩

/-- **One step of a scan with a sentinel.** The sentinel may itself occur as a key: an
element that equals it does not replace index 0, which is the right answer then. -/
theorem Best.step {top : κ} {best : ℕ × κ} (h : Best key top n best) (htop : key n ≤ top) :
    Best key top (n + 1) (if key n < best.2 then (n, key n) else best) := by
  rcases h with ⟨rfl, rfl⟩ | ⟨hmin, hkey⟩
  · refine .inr ?_
    split
    · exact ⟨isFirstMin_one, rfl⟩
    · exact ⟨isFirstMin_one, (le_antisymm htop (not_lt.mp ‹_›)).symm⟩
  · have hstep := hmin.step
    rw [hkey]
    split
    · rw [if_pos ‹_›] at hstep
      exact .inr ⟨hstep, rfl⟩
    · rw [if_neg ‹_›] at hstep
      exact .inr ⟨hstep, hkey⟩

/-- Past the first element the scan holds the first minimum. -/
theorem Best.isFirstMin {top : κ} {best : ℕ × κ} (h : Best key top n best) (hn : 0 < n) :
    IsFirstMin key n best.1 := by
  rcases h with ⟨rfl, -⟩ | ⟨hmin, -⟩
  · exact absurd hn (Nat.lt_irrefl 0)
  · exact hmin

/-- **A scan passes over an index exactly when another index beats it.** -/
theorem IsFirstMin.ne_iff (h : IsFirstMin key n b) (hi : i < n) : b ≠ i ↔ Beaten key n i := by
  constructor
  · intro hne
    rcases lt_or_eq_of_le (h.le i hi) with hlt | heq
    · exact ⟨b, h.lt, .inl hlt⟩
    · refine ⟨b, h.lt, .inr ⟨heq, ?_⟩⟩
      by_contra hge
      exact absurd (h.first i (by omega)) (not_lt.mpr heq.ge)
  · rintro ⟨j, hj, hbeat⟩ rfl
    rcases hbeat with hlt | ⟨heq, hji⟩
    · exact absurd (h.le j hj) (not_le.mpr hlt)
    · exact absurd (h.first j hji) (not_lt.mpr heq.le)

end FirstMin

end Scan
