import Mathlib.Algebra.Ring.Nat
import Mathlib.Tactic.Common
import Mathlib.Data.List.Basic

/-!
# Panics, Vectors and Fixed-Width Arithmetic

The part of Rust's run-time behaviour that decides whether a function returns: indexing
and `Vec::remove` panic out of range, `%` panics on a zero divisor, and `+`, `*` on a
fixed-width integer panic on overflow in a `dev` build and wrap in a `release` build.
Code that may panic is written in `Except Panic`; the functions that cannot (`get_mut`,
`saturating_sub`, `saturating_add`) are pure.

Indices, lengths and `usize` values are natural numbers; a sum or product that can leave
its width goes through `Profile.add` and `Profile.mul`. A counter that is stored and
compared is a `UInt32` or a `UInt64`.

## Main results

* `Vec.get_eq_ok`, `Vec.modify_eq_ok`, `Vec.remove_eq_ok`: an access returns exactly when
  its index is in range, and what it returns.
* `toNat_saturatingDec`: the saturating decrement read as a number.
* `inc_eq_ok`: when an increment returns, and what.
* `narrow_refines`: **overflow checks only take results away**: what a dev build returns, a
  release build returns.
-/

namespace Rust

/-- Why a call did not return. -/
inductive Panic
  | indexOutOfBounds (index len : Nat)
  | divideByZero
  | overflow
  | emptyRange
  deriving DecidableEq, Repr

/-- The build profile, which decides what an arithmetic overflow does. -/
inductive Profile
  | dev
  | release
  deriving DecidableEq, Repr

/-- Bring a mathematical result back into `bits` bits. -/
def Profile.narrow (p : Profile) (bits n : Nat) : Except Panic Nat :=
  if n < 2 ^ bits then .ok n
  else
    match p with
    | .dev => .error .overflow
    | .release => .ok (n % 2 ^ bits)

/-- Unsigned `a + b` in `bits` bits. -/
def Profile.add (p : Profile) (bits a b : Nat) : Except Panic Nat :=
  p.narrow bits (a + b)

/-- Unsigned `a * b` in `bits` bits. -/
def Profile.mul (p : Profile) (bits a b : Nat) : Except Panic Nat :=
  p.narrow bits (a * b)

/-- Unsigned `a % b`. -/
def rem (a b : Nat) : Except Panic Nat :=
  if b = 0 then .error .divideByZero else .ok (a % b)

/-- `uN::try_from(n)` for an unsigned `N` of `bits` bits. -/
def tryFrom (bits n : Nat) : Option Nat :=
  if n < 2 ^ bits then some n else none

/-- A release build never overflows: it wraps. -/
@[simp] theorem narrow_release (bits n : Nat) :
    Profile.release.narrow bits n = .ok (n % 2 ^ bits) := by
  unfold Profile.narrow
  split
  · rw [Nat.mod_eq_of_lt ‹_›]
  · rfl

@[simp] theorem add_release (bits a b : Nat) :
    Profile.release.add bits a b = .ok ((a + b) % 2 ^ bits) :=
  narrow_release bits (a + b)

@[simp] theorem mul_release (bits a b : Nat) :
    Profile.release.mul bits a b = .ok ((a * b) % 2 ^ bits) :=
  narrow_release bits (a * b)

/-- A remainder by a positive number is returned. -/
theorem rem_of_pos {a b : Nat} (h : 0 < b) : rem a b = .ok (a % b) :=
  if_neg (by omega)

/-- A sequence of calls returns when each of them does. -/
theorem bind_eq_ok {ε : Type*} {α β : Type} {x : Except ε α} {f : α → Except ε β} {b : β} :
    (x >>= f) = .ok b ↔ ∃ a, x = .ok a ∧ f a = .ok b := by
  cases x with
  | error e => simp [bind, Except.bind]
  | ok a => simp [bind, Except.bind]

/-- It returns something exactly when each of them does. -/
theorem exists_bind_eq_ok {ε : Type*} {α β : Type} {x : Except ε α} {f : α → Except ε β} :
    (∃ b, (x >>= f) = .ok b) ↔ ∃ a, x = .ok a ∧ ∃ b, f a = .ok b := by
  simp only [bind_eq_ok]
  exact ⟨fun ⟨b, a, ha, hb⟩ => ⟨a, ha, b, hb⟩, fun ⟨a, ha, b, hb⟩ => ⟨b, a, ha, hb⟩⟩

/-- A value mapped after a computation returned. -/
theorem map_eq_ok {ε α β : Type} {x : Except ε α} {f : α → β} {b : β} :
    x.map f = .ok b ↔ ∃ a, x = .ok a ∧ f a = b := by
  cases x with
  | error e => simp [Except.map]
  | ok a => simp [Except.map]

/-- What is returned is kept by `map_err`. -/
theorem mapError_eq_ok {ε ε' α : Type} {x : Except ε α} {f : ε → ε'} {a : α} :
    x.mapError f = .ok a ↔ x = .ok a := by
  cases x with
  | error e => simp [Except.mapError]
  | ok b => simp [Except.mapError]

/-! ### Overflow checks -/

/-- In a dev build a result is returned exactly when it fits. -/
theorem narrow_dev_eq_ok {bits n m : Nat} :
    Profile.dev.narrow bits n = .ok m ↔ n < 2 ^ bits ∧ m = n := by
  unfold Profile.narrow
  split
  · simp [*, eq_comm]
  · simp [*]

section Refines

variable {ε : Type*} {α β : Type}

/-- What `x` returns, `y` returns; `x` may fail where `y` does not. -/
def Refines (x y : Except ε α) : Prop := ∀ a, x = .ok a → y = .ok a

theorem Refines.refl (x : Except ε α) : Refines x x := fun _ h => h

/-- A sequence of calls is refined call by call. -/
theorem Refines.bind {x y : Except ε α} {f g : α → Except ε β} (hxy : Refines x y)
    (hfg : ∀ a, Refines (f a) (g a)) : Refines (x >>= f) (y >>= g) := by
  intro b hb
  obtain ⟨a, ha, hf⟩ := bind_eq_ok.mp hb
  exact bind_eq_ok.mpr ⟨a, hxy a ha, hfg a b hf⟩

/-- Where the overflow check passes, the unchecked result is the same. -/
theorem narrow_refines (bits n : Nat) :
    Refines (Profile.dev.narrow bits n) (Profile.release.narrow bits n) := by
  intro m hm
  obtain ⟨hlt, rfl⟩ := narrow_dev_eq_ok.mp hm
  rw [narrow_release, Nat.mod_eq_of_lt hlt]

end Refines

/-! ### Vectors -/

namespace Vec

variable {α : Type*}

/-- `v[i]`. -/
def get (v : List α) (i : Nat) : Except Panic α :=
  match v[i]? with
  | some a => .ok a
  | none => .error (.indexOutOfBounds i v.length)

/-- `v[i] = f(v[i])`, through a panicking index expression. -/
def modify (v : List α) (i : Nat) (f : α → α) : Except Panic (List α) :=
  if i < v.length then .ok (v.modify i f) else .error (.indexOutOfBounds i v.length)

/-- `v.remove(i)`: the element taken out and the vector shifted left behind it. -/
def remove (v : List α) (i : Nat) : Except Panic (α × List α) :=
  match v[i]? with
  | some a => .ok (a, v.eraseIdx i)
  | none => .error (.indexOutOfBounds i v.length)

/-- Indexing returns exactly the element at an index in range. -/
theorem get_eq_ok {v : List α} {i : Nat} {a : α} : get v i = .ok a ↔ v[i]? = some a := by
  unfold get
  cases v[i]? with
  | none => simp
  | some b => simp

/-- An update through an index returns exactly when the index is in range. -/
theorem modify_eq_ok {v v' : List α} {i : Nat} {f : α → α} :
    modify v i f = .ok v' ↔ i < v.length ∧ v' = v.modify i f := by
  unfold modify
  split
  · simp [*, eq_comm]
  · simp [*]

/-- `remove` returns exactly when the index is in range. -/
theorem remove_eq_ok {v v' : List α} {i : Nat} {a : α} :
    remove v i = .ok (a, v') ↔ v[i]? = some a ∧ v' = v.eraseIdx i := by
  unfold remove
  cases v[i]? with
  | none => simp
  | some b => simp [eq_comm]

/-- Indexing in range does not panic. -/
theorem get_of_lt {v : List α} {i : Nat} (h : i < v.length) : get v i = .ok v[i] :=
  get_eq_ok.mpr (List.getElem?_eq_getElem h)

/-- Removing in range does not panic. -/
theorem remove_of_lt {v : List α} {i : Nat} (h : i < v.length) :
    remove v i = .ok (v[i], v.eraseIdx i) :=
  remove_eq_ok.mpr ⟨List.getElem?_eq_getElem h, rfl⟩

end Vec

/-! ### Counters -/

/-- `a.saturating_sub(1)` on a `u32`. -/
def saturatingDec (a : UInt32) : UInt32 :=
  if a = 0 then 0 else a - 1

/-- `a.saturating_add(1)` on a `u32`. -/
def saturatingInc (a : UInt32) : UInt32 :=
  if a = 0xFFFFFFFF then a else a + 1

/-- `a.saturating_add(1)` on a `u64`. -/
def saturatingInc64 (a : UInt64) : UInt64 :=
  if a = 0xFFFFFFFFFFFFFFFF then a else a + 1

/-- `a += 1` on a `u32`. -/
def Profile.inc (p : Profile) (a : UInt32) : Except Panic UInt32 :=
  if a = 0xFFFFFFFF then
    match p with
    | .dev => .error .overflow
    | .release => .ok 0
  else .ok (a + 1)

/-- Below the maximum the increment counts one more. -/
theorem toNat_add_one {a : UInt32} (h : a ≠ 0xFFFFFFFF) : (a + 1).toNat = a.toNat + 1 := by
  have hne : a.toNat ≠ 2 ^ 32 - 1 := fun he => h (UInt32.toNat_inj.mp he)
  have hlt := a.toNat_lt
  rw [UInt32.toNat_add, UInt32.toNat_one]
  omega

/-- A counter that can be counted further is below the maximum. -/
theorem ne_max_of_toNat_lt {a : UInt32} (h : a.toNat + 1 < 2 ^ 32) : a ≠ 0xFFFFFFFF := by
  rintro rfl
  exact absurd h (by decide)

/-- What is below another counter is below the maximum. -/
theorem ne_max_of_lt {a b : UInt32} (h : a < b) : a ≠ 0xFFFFFFFF := by
  have hb := b.toNat_lt
  have hlt := UInt32.lt_iff_toNat_lt.mp h
  exact ne_max_of_toNat_lt (by omega)

/-- An increment that returns: one more, or the wrapped zero of a release build. -/
theorem inc_eq_ok {p : Profile} {a b : UInt32} :
    p.inc a = .ok b ↔
      (a ≠ 0xFFFFFFFF ∧ b = a + 1) ∨ (a = 0xFFFFFFFF ∧ p = .release ∧ b = 0) := by
  unfold Profile.inc
  by_cases ha : a = 0xFFFFFFFF
  · cases p with
    | dev => simp [ha]
    | release => simp [ha, eq_comm]
  · simp [ha, eq_comm]

/-- A saturating increment at any width. -/
def satInc {w : ℕ} (a : BitVec w) : BitVec w := if a = BitVec.allOnes w then a else a + 1

theorem toBitVec_saturatingInc (a : UInt32) : (saturatingInc a).toBitVec = satInc a.toBitVec := by
  rw [saturatingInc, satInc, apply_ite UInt32.toBitVec]
  exact if_congr UInt32.toBitVec_inj.symm rfl rfl

theorem toBitVec_saturatingInc64 (a : UInt64) :
    (saturatingInc64 a).toBitVec = satInc a.toBitVec := by
  rw [saturatingInc64, satInc, apply_ite UInt64.toBitVec]
  exact if_congr UInt64.toBitVec_inj.symm rfl rfl

/-- A saturating increment of a sum cut off at the maximum. -/
theorem satInc_ofNat_min (w n : ℕ) :
    satInc (BitVec.ofNat w (min n (2 ^ w - 1))) = BitVec.ofNat w (min (n + 1) (2 ^ w - 1)) := by
  unfold satInc
  rcases Nat.lt_or_ge n (2 ^ w - 1) with hlt | hge
  · have hne : BitVec.ofNat w n ≠ BitVec.allOnes w := by
      intro heq
      have hval := congrArg BitVec.toNat heq
      rw [BitVec.toNat_ofNat, BitVec.toNat_allOnes, Nat.mod_eq_of_lt (by omega)] at hval
      exact Nat.ne_of_lt hlt hval
    rw [Nat.min_eq_left (Nat.le_of_lt hlt), Nat.min_eq_left (by omega), if_neg hne,
      BitVec.ofNat_add]
    rfl
  · rw [Nat.min_eq_right hge, Nat.min_eq_right (by omega), if_pos]
    exact BitVec.eq_of_toNat_eq (by simp)

theorem saturatingInc_ofNat_min (n : ℕ) :
    saturatingInc (UInt32.ofNat (min n (2 ^ 32 - 1))) =
      UInt32.ofNat (min (n + 1) (2 ^ 32 - 1)) := by
  rw [← UInt32.toBitVec_inj, toBitVec_saturatingInc]
  exact satInc_ofNat_min 32 n

theorem saturatingInc64_ofNat_min (n : ℕ) :
    saturatingInc64 (UInt64.ofNat (min n (2 ^ 64 - 1))) =
      UInt64.ofNat (min (n + 1) (2 ^ 64 - 1)) := by
  rw [← UInt64.toBitVec_inj, toBitVec_saturatingInc64]
  exact satInc_ofNat_min 64 n

/-- A saturating decrement is truncated subtraction. -/
@[simp] theorem toNat_saturatingDec (a : UInt32) : (saturatingDec a).toNat = a.toNat - 1 := by
  unfold saturatingDec
  split
  · subst a; rfl
  · have hle : (1 : UInt32) ≤ a := by
      rw [UInt32.le_iff_toNat_le]
      have : a.toNat ≠ 0 := fun h => ‹a ≠ 0› (UInt32.toNat_inj.mp h)
      simpa using Nat.one_le_iff_ne_zero.mpr this
    rw [UInt32.toNat_sub_of_le _ _ hle]
    rfl

end Rust
