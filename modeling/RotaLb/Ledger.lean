import Mathlib.Data.List.Nodup
import Mathlib.Order.Lattice
import RotaLb.Keyed

/-!
# Counters and Debts

A table of accounts, each with a key and an opening balance; one counter per account, kept
at the same position of a second list; and a load, which says for every key how many
increments of its counter have not been undone. A `Transfer` is one change of such a book:
a counter is incremented with its load or decremented with its load, accounts are added,
removed by position or all renewed, or a counter is decremented without its load (a
misdirected transfer, possible only if the step is not `faithful`). The increment `inc` is a
parameter: it may wrap.

## Main results

* `Transfer.balanced`: **a relation between counter and load that the four elementary
  changes respect is kept by every transfer.**
* `tracks_le`, `tracks_eq`: a counter is never above its load; it is equal to it as long as
  no increment wraps and every transfer is faithful.
-/

namespace Ledger

variable {κ : Type*}

/-- Accounts with their opening balances, their counters, and the load of every key. -/
structure Book (κ : Type*) where
  accounts : List (κ × ℕ)
  counts : List ℕ
  load : κ → ℕ

/-- The keys of the accounts. -/
def Book.keys (b : Book κ) : List κ := b.accounts.map Prod.fst

/-- One change of a book. -/
inductive Transfer [DecidableEq κ] (inc : ℕ → ℕ) (faithful : Prop) (b b' : Book κ) : Prop
  | keep (haccounts : b'.accounts = b.accounts) (hcounts : b'.counts = b.counts)
      (hload : ∀ k, b'.load k = b.load k)
  | borrow {i : ℕ} {k : κ} (hk : b.keys[i]? = some k) (haccounts : b'.accounts = b.accounts)
      (hcounts : b'.counts = b.counts.modify i inc)
      (hload : ∀ k', b'.load k' = b.load k' + if k = k' then 1 else 0)
  | repay {i : ℕ} {k : κ} (hk : b.keys[i]? = some k) (haccounts : b'.accounts = b.accounts)
      (hcounts : b'.counts = b.counts.modify i (· - 1))
      (hload : ∀ k', b'.load k' + (if k = k' then 1 else 0) = b.load k')
  | misdirect {i : ℕ} (hf : ¬ faithful) (haccounts : b'.accounts = b.accounts)
      (hcounts : b'.counts = b.counts.modify i (· - 1)) (hload : ∀ k, b'.load k = b.load k)
  | enter {k : κ} {o : ℕ} (hk : b.load k = 0) (haccounts : b'.accounts = b.accounts ++ [(k, o)])
      (hcounts : b'.counts = b.counts ++ [o]) (hload : ∀ k, b'.load k = b.load k)
  | leave {i : ℕ} (haccounts : b'.accounts = b.accounts.eraseIdx i)
      (hcounts : b'.counts = b.counts.eraseIdx i) (hload : ∀ k, b'.load k = b.load k)
  | renew (as : List (κ × ℕ)) (has : ∀ a ∈ as, b.load a.1 = 0) (haccounts : b'.accounts = as)
      (hcounts : b'.counts = as.map Prod.snd) (hload : ∀ k, b'.load k = b.load k)

/-- Only the key of an account gains load. -/
theorem Transfer.load_le [DecidableEq κ] {inc : ℕ → ℕ} {faithful : Prop} {b b' : Book κ}
    (h : Transfer inc faithful b b') {k : κ} (hk : k ∉ b.keys) : b'.load k ≤ b.load k := by
  cases h with
  | keep _ _ hload | misdirect _ _ _ hload | enter _ _ _ hload | leave _ _ hload
  | renew _ _ _ _ hload => exact (hload k).le
  | @borrow i k' hk' _ _ hload =>
      have hne : ¬ k' = k := fun he => hk (he ▸ List.mem_of_getElem? hk')
      rw [hload, if_neg hne]
      exact le_rfl
  | repay _ _ _ hload =>
      rw [← hload]
      exact Nat.le_add_right _ _

/-- Every counter is related to its opening balance plus its load. -/
def Book.Balanced (R : ℕ → ℕ → Prop) (b : Book κ) : Prop :=
  ∀ (i : ℕ) (k : κ) (o a : ℕ), b.accounts[i]? = some (k, o) → b.counts[i]? = some a →
    R a (o + b.load k)

/-- The relation `R` between counter and load respects the elementary changes; increments
are asked about only while the load stays within `K`. -/
structure Tracks (inc : ℕ → ℕ) (K : ℕ → Prop) (faithful : Prop) (R : ℕ → ℕ → Prop) : Prop where
  refl : ∀ n, R n n
  inc : ∀ a n, R a n → K (n + 1) → R (inc a) (n + 1)
  dec : ∀ a n, R a (n + 1) → R (a - 1) n
  misdirect : faithful ∨ ∀ a n, R a n → R (a - 1) n

/-- A counter whose increment may wrap is never above its load. -/
theorem tracks_le {inc : ℕ → ℕ} (hinc : ∀ a, inc a ≤ a + 1) (faithful : Prop) :
    Tracks inc (fun _ => True) faithful (· ≤ ·) where
  refl _ := le_rfl
  inc a _ h _ := (hinc a).trans (Nat.succ_le_succ h)
  dec _ _ h := Nat.sub_le_of_le_add h
  misdirect := .inr fun _ _ h => (Nat.sub_le _ _).trans h

/-- Below the wrap a counter is equal to its load, as long as transfers are faithful. -/
theorem tracks_eq {inc : ℕ → ℕ} {bound : ℕ} (hinc : ∀ a, a + 1 < bound → inc a = a + 1)
    {faithful : Prop} (hf : faithful) : Tracks inc (· < bound) faithful (· = ·) where
  refl _ := rfl
  inc a n h hK := by
    subst h
    exact hinc a hK
  dec a n h := by rw [h, Nat.add_sub_cancel]
  misdirect := .inl hf

section Step

variable {inc : ℕ → ℕ} {K : ℕ → Prop} {faithful : Prop} {R : ℕ → ℕ → Prop} {b b' : Book κ}

/-- The load of the key at one position changes together with its counter. -/
theorem balanced_of_modify {i : ℕ} {k : κ} {f : ℕ → ℕ} (hnd : b.keys.Nodup)
    (hk : b.keys[i]? = some k) (haccounts : b'.accounts = b.accounts)
    (hcounts : b'.counts = b.counts.modify i f)
    (hother : ∀ k', k ≠ k' → b'.load k' = b.load k')
    (hf : ∀ a o, b.accounts[i]? = some (k, o) → R a (o + b.load k) → R (f a) (o + b'.load k))
    (h : b.Balanced R) : b'.Balanced R := by
  intro j k' o a hj ha
  rw [haccounts] at hj
  rw [hcounts, List.getElem?_modify] at ha
  have hkey : b.keys[j]? = some k' := by rw [Book.keys, List.getElem?_map, hj, Option.map_some]
  obtain ⟨a₀, ha₀, rfl⟩ := Option.map_eq_some_iff.mp ha
  by_cases hij : i = j
  · subst hij
    obtain rfl : k = k' := Option.some.inj (hk.symm.trans hkey)
    rw [if_pos rfl]
    exact hf a₀ o hj (h i k o a₀ hj ha₀)
  · have hne : k ≠ k' := fun he => hij (Keyed.eq_of_getElem?_eq hnd hk (he ▸ hkey))
    rw [if_neg hij, hother k' hne]
    exact h j k' o a₀ hj ha₀

/-- An account enters with its opening balance, unused. -/
theorem balanced_of_append {k : κ} {o : ℕ} (hlen : b.counts.length = b.accounts.length)
    (haccounts : b'.accounts = b.accounts ++ [(k, o)]) (hcounts : b'.counts = b.counts ++ [o])
    (hload : ∀ k', b'.load k' = b.load k') (hnew : R o (o + b.load k)) (h : b.Balanced R) :
    b'.Balanced R := by
  intro i k' o' a hi ha
  rw [haccounts] at hi
  rw [hcounts] at ha
  rw [hload]
  by_cases hlt : i < b.accounts.length
  · rw [List.getElem?_append_left hlt] at hi
    rw [List.getElem?_append_left (hlen ▸ hlt)] at ha
    exact h i k' o' a hi ha
  · rw [List.getElem?_append_right (not_lt.mp hlt)] at hi
    rw [List.getElem?_append_right (hlen ▸ not_lt.mp hlt), hlen] at ha
    obtain ⟨_, hi⟩ := List.getElem?_eq_some_iff.mp hi
    obtain ⟨_, ha⟩ := List.getElem?_eq_some_iff.mp ha
    simp only [List.getElem_singleton, Prod.mk.injEq] at hi ha
    obtain ⟨rfl, rfl⟩ := hi
    rwa [← ha]

/-- An account leaves together with its counter. -/
theorem balanced_of_eraseIdx {i : ℕ} (haccounts : b'.accounts = b.accounts.eraseIdx i)
    (hcounts : b'.counts = b.counts.eraseIdx i) (hload : ∀ k, b'.load k = b.load k)
    (h : b.Balanced R) : b'.Balanced R := by
  intro j k o a hj ha
  rw [haccounts, List.getElem?_eraseIdx] at hj
  rw [hcounts, List.getElem?_eraseIdx] at ha
  rw [hload]
  by_cases hlt : j < i
  · rw [if_pos hlt] at hj ha
    exact h j k o a hj ha
  · rw [if_neg hlt] at hj ha
    exact h (j + 1) k o a hj ha

/-- **Every transfer keeps the book balanced.** -/
theorem Transfer.balanced [DecidableEq κ] (ht : Transfer inc faithful b b')
    (hR : Tracks inc K faithful R) (hnd : b.keys.Nodup) (hlen : b.counts.length = b.accounts.length)
    (hK : ∀ k o, (k, o) ∈ b'.accounts → K (o + b'.load k)) (h : b.Balanced R) :
    b'.Balanced R := by
  cases ht with
  | keep haccounts hcounts hload =>
      intro i k o a hi ha
      rw [hload]
      exact h i k o a (haccounts ▸ hi) (hcounts ▸ ha)
  | @borrow i k hk haccounts hcounts hload =>
      refine balanced_of_modify hnd hk haccounts hcounts (fun k' hne => ?_) (fun a o ho ha => ?_) h
      · rw [hload, if_neg hne]
        rfl
      · have hbound := hK k o (haccounts ▸ List.mem_of_getElem? ho)
        rw [hload, if_pos rfl] at hbound ⊢
        exact hR.inc a _ ha hbound
  | @repay i k hk haccounts hcounts hload =>
      refine balanced_of_modify hnd hk haccounts hcounts (fun k' hne => ?_) (fun a o _ ha => ?_) h
      · have := hload k'
        rwa [if_neg hne] at this
      · have hk' := hload k
        rw [if_pos rfl] at hk'
        rw [← hk', ← Nat.add_assoc] at ha
        exact hR.dec a _ ha
  | @misdirect i hf haccounts hcounts hload =>
      have hdec := hR.misdirect.resolve_left hf
      intro j k o a hj ha
      rw [hcounts, List.getElem?_modify] at ha
      obtain ⟨a₀, ha₀, rfl⟩ := Option.map_eq_some_iff.mp ha
      have hbal := h j k o a₀ (haccounts ▸ hj) ha₀
      rw [hload]
      split
      · exact hdec _ _ hbal
      · exact hbal
  | @enter k o hk haccounts hcounts hload =>
      refine balanced_of_append hlen haccounts hcounts hload ?_ h
      rw [hk]
      exact hR.refl o
  | leave haccounts hcounts hload => exact balanced_of_eraseIdx haccounts hcounts hload h
  | @renew as has haccounts hcounts hload =>
      intro j k o a hj ha
      rw [haccounts] at hj
      rw [hcounts, List.getElem?_map, hj, Option.map_some] at ha
      rw [hload, has _ (List.mem_of_getElem? hj), ← Option.some.inj ha]
      exact hR.refl o

end Step

end Ledger
