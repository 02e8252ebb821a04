import RotaLb.Address

/-!
# The Grammar of Dial Addresses

`validate_dial_addr` cuts its address at the last colon and parses what follows as a `u16`. The
two steps are characterised separately, each by an equivalence: `rsplitOnce` finds the only cut
with no colon behind it, and `parseU16` accepts the digit strings whose value fits 16 bits, with
one `+` in front or none. Neither leading zeros nor the length of the digit string matter: the
value never falls while digits are read, so the check at each digit is a check of the value.

## Main results

* `rsplitOnce_eq_some`, `parseU16_eq_some`: what the two steps accept.
* `validateDialAddr_split`: the verdict on an address cut at its last colon.
* `validateDialAddr_ok_iff`: **the accepted addresses are those of the grammar.**
* `validateDialAddr_format_iff`: a host and a number, formatted.
-/

namespace RotaLb

/-! ### The cut -/

/-- There is no cut without the character. -/
theorem rsplitOnce_eq_none {c : Char} {s : List Char} : rsplitOnce c s = none ↔ c ∉ s := by
  induction s with
  | nil => simp [rsplitOnce]
  | cons x xs ih =>
      rw [rsplitOnce, List.mem_cons, not_or]
      cases hxs : rsplitOnce c xs with
      | none =>
          rw [hxs] at ih
          simp [ih.mp rfl, eq_comm]
      | some r =>
          rw [hxs] at ih
          simp only [reduceCtorEq, false_iff, not_not] at ih
          simp [ih]

/-- **The cut is the one with no such character behind it.** -/
theorem rsplitOnce_eq_some {c : Char} {s h t : List Char} :
    rsplitOnce c s = some (h, t) ↔ s = h ++ c :: t ∧ c ∉ t := by
  induction s generalizing h with
  | nil => simp [rsplitOnce]
  | cons x xs ih =>
      rw [rsplitOnce]
      cases hxs : rsplitOnce c xs with
      | none =>
          have hnone : c ∉ xs := rsplitOnce_eq_none.mp hxs
          cases h with
          | nil =>
              by_cases hx : x = c
              · subst hx
                simp only [if_true, Option.some.injEq, Prod.mk.injEq, true_and, List.nil_append,
                  List.cons.injEq]
                exact ⟨fun heq => ⟨heq, heq ▸ hnone⟩, And.left⟩
              · simp [hx]
          | cons y h =>
              -- a cut further on would leave the character in the rest
              have hfalse : xs ≠ h ++ c :: t := fun heq => hnone (heq ▸ by simp)
              change (if x = c then some ([], xs) else none) = some (y :: h, t) ↔ _
              split <;> simp [hfalse]
      | some r =>
          obtain ⟨h', t'⟩ := r
          have hmem : c ∈ xs := by
            by_contra hmem
            cases hxs.symm.trans (rsplitOnce_eq_none.mpr hmem)
          cases h with
          | nil =>
              simp only [Option.some.injEq, Prod.mk.injEq, reduceCtorEq, false_and, List.nil_append,
                List.cons.injEq, false_iff, not_and, not_not]
              rintro ⟨-, rfl⟩
              exact hmem
          | cons y h =>
              simp only [Option.some.injEq, Prod.mk.injEq, List.cons.injEq, List.cons_append,
                and_assoc, ← ih, hxs]

/-! ### The port -/

/-- Reading digits does not lower the value. -/
theorem le_ofDigitChars (ds : List Char) (init : ℕ) : init ≤ Nat.ofDigitChars 10 ds init := by
  rw [Nat.ofDigitChars_eq_ofDigitChars_zero]
  have hle : init ≤ 10 ^ ds.length * init := Nat.le_mul_of_pos_left init (Nat.pow_pos (by decide))
  exact hle.trans (Nat.le_add_right _ _)

theorem pushDigit_eq_some {acc v : ℕ} {c : Char} :
    pushDigit acc c = some v ↔
      c.isDigit = true ∧ 10 * acc + (c.toNat - '0'.toNat) = v ∧ v < 2 ^ 16 := by
  rw [pushDigit, Nat.mul_comm acc 10]
  split
  · rename_i hc
    simp only [hc, true_and]
    split
    · rename_i hlt
      rw [Option.some.injEq]
      exact ⟨fun heq => ⟨heq, heq ▸ hlt⟩, And.left⟩
    · rename_i hge
      refine iff_of_false (by simp) ?_
      rintro ⟨rfl, hlt⟩
      exact hge hlt
  · rename_i hc
    simp [hc]

/-- The checks at the digits together check the value. -/
theorem foldlM_pushDigit_eq_some {ds : List Char} {acc v : ℕ} (hacc : acc < 2 ^ 16) :
    ds.foldlM pushDigit acc = some v ↔
      (∀ c ∈ ds, c.isDigit = true) ∧ Nat.ofDigitChars 10 ds acc = v ∧ v < 2 ^ 16 := by
  induction ds generalizing acc with
  | nil =>
      simp only [List.foldlM_nil, pure, Option.some.injEq, List.not_mem_nil, false_imp_iff,
        implies_true, Nat.ofDigitChars_nil, true_and]
      exact ⟨fun heq => ⟨heq, heq ▸ hacc⟩, And.left⟩
  | cons c ds ih =>
      rw [List.foldlM_cons, Nat.ofDigitChars_cons, List.forall_mem_cons]
      simp only [bind, Option.bind_eq_some_iff, pushDigit_eq_some]
      constructor
      · rintro ⟨a, ⟨hc, rfl, ha⟩, hrest⟩
        obtain ⟨hds, hv⟩ := (ih ha).mp hrest
        exact ⟨⟨hc, hds⟩, hv⟩
      · rintro ⟨⟨hc, hds⟩, rfl, hv⟩
        have ha := (le_ofDigitChars ds _).trans_lt hv
        exact ⟨_, ⟨hc, rfl, ha⟩, (ih ha).mpr ⟨hds, rfl, hv⟩⟩

/-- A non-empty string of decimal digits with the value `n`. -/
def IsDecimal (p : String) (n : ℕ) : Prop :=
  p ≠ "" ∧ (∀ c ∈ p.toList, c.isDigit = true) ∧ Nat.ofDigitChars 10 p.toList 0 = n

/-- There is nothing but digits in it. -/
theorem IsDecimal.not_mem {p : String} {n : ℕ} {c : Char} (h : IsDecimal p n)
    (hc : c.isDigit = false) : c ∉ p.toList := by
  intro hmem
  cases hc.symm.trans (h.2.1 c hmem)

/-- A sign is no digit. -/
theorem IsDecimal.not_plus {p q : String} {n : ℕ} (h : IsDecimal p n) : p ≠ "+" ++ q := by
  rintro rfl
  exact h.not_mem (c := '+') (by decide) (by simp)

/-- What the loop of the parser accepts, from its start. -/
theorem digits_eq_some {q : String} {n : ℕ} :
    (if q.toList.isEmpty then none else q.toList.foldlM pushDigit 0) = some n ↔
      IsDecimal q n ∧ n < 2 ^ 16 := by
  by_cases hq : q = ""
  · simp [hq, IsDecimal]
  · have hne : q.toList.isEmpty = false := by simpa using hq
    simp only [hne, Bool.false_eq_true, if_false, foldlM_pushDigit_eq_some (Nat.two_pow_pos 16)]
    rw [IsDecimal, and_assoc, and_assoc]
    exact (and_iff_right hq).symm

/-- A sign in front is dropped. -/
theorem parseU16_plus {q : String} {n : ℕ} :
    parseU16 ("+" ++ q).toList = some n ↔ IsDecimal q n ∧ n < 2 ^ 16 := by
  rw [← digits_eq_some, String.toList_append]
  rfl

/-- Without one the whole string is read. -/
theorem parseU16_of_not_plus {p : String} {n : ℕ} (hp : ∀ q, p ≠ "+" ++ q) :
    parseU16 p.toList = some n ↔ IsDecimal p n ∧ n < 2 ^ 16 := by
  rw [← digits_eq_some]
  unfold parseU16
  split
  · rename_i rest hrest
    refine absurd ?_ (hp (String.ofList rest))
    rw [← String.toList_inj, hrest]
    simp
  · rfl

/-- **The numbers `u16::from_str` accepts**: decimal digits with a value of 16 bits, and one `+`
in front or none. -/
theorem parseU16_eq_some {p : String} {n : ℕ} :
    parseU16 p.toList = some n ↔
      (IsDecimal p n ∨ ∃ q, p = "+" ++ q ∧ IsDecimal q n) ∧ n < 2 ^ 16 := by
  by_cases hplus : ∃ q, p = "+" ++ q
  · obtain ⟨q, rfl⟩ := hplus
    rw [parseU16_plus]
    refine and_congr_left fun _ => ⟨fun hq => .inr ⟨q, rfl, hq⟩, ?_⟩
    rintro (hp | ⟨q', heq, hq'⟩)
    · exact absurd rfl hp.not_plus
    · obtain rfl : q = q' := by simpa using heq
      exact hq'
  · rw [parseU16_of_not_plus (not_exists.mp hplus)]
    refine and_congr_left fun _ => ⟨.inl, ?_⟩
    rintro (hp | ⟨q, heq, -⟩)
    · exact hp
    · exact absurd ⟨q, heq⟩ hplus

/-! ### The address -/

/-- An address without a colon. -/
theorem validateDialAddr_of_not_mem {s : String} (hs : ':' ∉ s.toList) :
    validateDialAddr s = .error (.invalidAddress s "expected \"host:port\"") := by
  rw [validateDialAddr, rsplitOnce_eq_none.mpr hs]

/-- **The verdict on an address, cut at its last colon.** -/
theorem validateDialAddr_split (h p : String) (hp : ':' ∉ p.toList) :
    validateDialAddr (h ++ ":" ++ p) =
      if h = "" then .error (.invalidAddress (h ++ ":" ++ p) "empty host")
      else if (parseU16 p.toList).all (· = 0) then
        .error (.invalidAddress (h ++ ":" ++ p) "port must be 1-65535")
      else .ok () := by
  have hcut : rsplitOnce ':' (h ++ ":" ++ p).toList = some (h.toList, p.toList) :=
    rsplitOnce_eq_some.mpr ⟨by simp, hp⟩
  have hempty : h.toList.isEmpty = true ↔ h = "" := by simp
  simp only [validateDialAddr, hcut, hempty]

/-- The ports of the grammar: a number from 1 to 65535 in decimal digits. -/
def IsPort (p : String) : Prop := ∃ n, IsDecimal p n ∧ 1 ≤ n ∧ n ≤ 65535

/-- What the parser accepts is a port of the grammar, or one behind a `+`. -/
theorem parseU16_all_eq_false {p : String} :
    (parseU16 p.toList).all (· = 0) = false ↔ IsPort p ∨ ∃ q, p = "+" ++ q ∧ IsPort q := by
  have hall : (parseU16 p.toList).all (· = 0) = false ↔
      ∃ n, parseU16 p.toList = some n ∧ n ≠ 0 := by
    cases parseU16 p.toList with
    | none => simp
    | some n => simp
  simp only [hall, parseU16_eq_some]
  constructor
  · rintro ⟨n, ⟨hp | ⟨q, hq, hn⟩, hlt⟩, hne⟩
    · exact .inl ⟨n, hp, by omega, by omega⟩
    · exact .inr ⟨q, hq, n, hn, by omega, by omega⟩
  · rintro (⟨n, hp, hpos, hle⟩ | ⟨q, hq, n, hn, hpos, hle⟩)
    · exact ⟨n, ⟨.inl hp, by omega⟩, by omega⟩
    · exact ⟨n, ⟨.inr ⟨q, hq, hn⟩, by omega⟩, by omega⟩

/-- There is no colon in a port. -/
theorem IsPort.not_mem {p : String} (h : IsPort p) : ':' ∉ p.toList := by
  obtain ⟨n, hp, -⟩ := h
  exact hp.not_mem (by decide)

/-- Cut at its last colon, an address is accepted for its host and its port. -/
theorem validateDialAddr_split_ok_iff {h p : String} (hp : ':' ∉ p.toList) :
    validateDialAddr (h ++ ":" ++ p) = .ok () ↔
      h ≠ "" ∧ (IsPort p ∨ ∃ q, p = "+" ++ q ∧ IsPort q) := by
  rw [validateDialAddr_split h p hp, ← parseU16_all_eq_false]
  split
  · rename_i hempty
    simp [hempty]
  · rename_i hne
    split
    · rename_i hbad
      simp [hbad]
    · rename_i hgood
      simp [hne, hgood]

/-- **The accepted addresses**: a non-empty host, a colon, and a port with one `+` in front or
none. -/
theorem validateDialAddr_ok_iff {s : String} :
    validateDialAddr s = .ok () ↔ ∃ h p, s = h ++ ":" ++ p ∧ h ≠ "" ∧
      (IsPort p ∨ ∃ q, p = "+" ++ q ∧ IsPort q) := by
  constructor
  · intro hok
    cases hcut : rsplitOnce ':' s.toList with
    | none => cases (validateDialAddr_of_not_mem (rsplitOnce_eq_none.mp hcut)).symm.trans hok
    | some r =>
        obtain ⟨h, p⟩ := r
        obtain ⟨hs, hp⟩ := rsplitOnce_eq_some.mp hcut
        have heq : s = String.ofList h ++ ":" ++ String.ofList p := by
          rw [← String.toList_inj, hs]
          simp
        have hp' : ':' ∉ (String.ofList p).toList := by simpa using hp
        rw [heq, validateDialAddr_split_ok_iff hp'] at hok
        exact ⟨_, _, heq, hok⟩
  · rintro ⟨h, p, rfl, hne, hport⟩
    refine (validateDialAddr_split_ok_iff ?_).mpr ⟨hne, hport⟩
    rcases hport with hp | ⟨q, rfl, hq⟩
    · exact hp.not_mem
    · simpa using hq.not_mem

/-- A number in decimal digits. -/
theorem isDecimal_toString (n : ℕ) : IsDecimal (toString n) n := by
  rw [Nat.toString_eq_ofList_toDigits]
  refine ⟨?_, ?_, ?_⟩
  · simp [Nat.toDigits_ne_nil]
  · rw [String.toList_ofList]
    exact fun c hc => Nat.isDigit_of_mem_toDigits (by decide) (by decide) hc
  · rw [String.toList_ofList, Nat.ofDigitChars_ten_toDigits]

/-- **A host and a number, formatted**: the number is the port, and colons in the host do not
matter. -/
theorem validateDialAddr_format_iff {h : String} {n : ℕ} :
    validateDialAddr (h ++ ":" ++ toString n) = .ok () ↔ h ≠ "" ∧ 1 ≤ n ∧ n ≤ 65535 := by
  have hn := isDecimal_toString n
  rw [validateDialAddr_split_ok_iff (hn.not_mem (by decide))]
  refine and_congr_right fun _ => ⟨?_, fun hle => .inl ⟨n, hn, hle⟩⟩
  rintro (⟨m, hm, hle⟩ | ⟨q, hq, -⟩)
  · obtain rfl : n = m := hn.2.2.symm.trans hm.2.2
    exact hle
  · exact absurd hq hn.not_plus

/-- **The grammar of `validate_dial_addr`.** A string is accepted exactly when it is a non-empty
host, a colon, and a port: decimal digits with a value from 1 to 65535, leading zeros allowed,
and one `+` in front of them or none. In particular every non-empty host and every number from 1
to 65535 give an accepted address. -/
theorem validateDialAddr_grammar (s : String) :
    (validateDialAddr s = .ok () ↔ ∃ h p, s = h ++ ":" ++ p ∧ h ≠ "" ∧
      (IsPort p ∨ ∃ q, p = "+" ++ q ∧ IsPort q)) ∧
    ∀ (h : String) (n : ℕ), h ≠ "" → 1 ≤ n → n ≤ 65535 →
      validateDialAddr (h ++ ":" ++ toString n) = .ok () :=
  ⟨validateDialAddr_ok_iff,
    fun _ _ hne hpos hle => validateDialAddr_format_iff.mpr ⟨hne, hpos, hle⟩⟩

/-- A host with colons and the largest port. -/
theorem validateDialAddr_grammar_ipv6 :
    validateDialAddr ("::1" ++ ":" ++ toString 65535) = .ok () :=
  (validateDialAddr_grammar "").2 "::1" 65535 (by decide) (by decide) (by decide)

/-- A signed port is accepted, and it is no port of the grammar without the sign. -/
theorem signed_port_accepted :
    validateDialAddr "example.com:+80" = .ok () ∧
      ¬ ∃ h p, "example.com:+80" = h ++ ":" ++ p ∧ h ≠ "" ∧ IsPort p := by
  refine ⟨by decide, ?_⟩
  rintro ⟨h, p, heq, -, hp⟩
  have hcut : rsplitOnce ':' "example.com:+80".toList = some (h.toList, p.toList) :=
    rsplitOnce_eq_some.mpr ⟨by rw [heq]; simp, hp.not_mem⟩
  have hcut' : rsplitOnce ':' "example.com:+80".toList =
      some ("example.com".toList, "+80".toList) := by decide
  have hport : p.toList = "+80".toList :=
    congrArg Prod.snd (Option.some.inj (hcut.symm.trans hcut'))
  obtain ⟨n, hdec, -⟩ := hp
  exact hdec.not_mem (c := '+') (by decide) (by rw [hport]; decide)

end RotaLb
