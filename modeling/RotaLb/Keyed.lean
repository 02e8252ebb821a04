import Mathlib.Data.List.Perm.Basic
import Mathlib.Data.List.Nodup
import Mathlib.Data.List.InsertIdx

/-!
# Lists Addressed by Position and by Key

A table whose rows carry distinct keys can be edited by position (as code with parallel
vectors edits it) or by key (as a specification does). The two agree: removing or
updating the row at a position is removing or updating the rows with its key.

The second half counts the rows satisfying a predicate while rows are removed or
replaced by position.

## Main results

* `map_ite_eq_modify`, `filter_ne_eq_eraseIdx`: **edits by key are edits by position**.
* `eraseKeys_filterMap`: erasing by the keys of the table itself.
* `map_modify_of_absorb`, `map_modify_of_comm`, `map_eq_modify_map`: what a column sees of an
  edit.
* `countP_eraseIdx_add`, `countP_set_add`: **a count under an edit**.
-/

namespace Keyed

variable {α β κ : Type*} {l : List α} {i : ℕ} {a b : α}

/-! ### Edits by key and by position -/

/-- **Updating by key is updating by position** when the keys are distinct. -/
theorem map_ite_eq_modify [DecidableEq κ] {key : α → κ} (hnd : (l.map key).Nodup)
    (h : l[i]? = some a) (f : α → α) :
    l.map (fun x => if key x = key a then f x else x) = l.modify i f := by
  induction l generalizing i with
  | nil => simp at h
  | cons x l ih =>
      obtain ⟨hx, hl⟩ := List.nodup_cons.mp hnd
      cases i with
      | zero =>
          obtain rfl : x = a := by simpa using h
          have hrest : l.map (fun y => if key y = key x then f y else y) = l := by
            refine (List.map_congr_left fun y hy => ?_).trans (List.map_id l)
            have hne : key y ≠ key x := fun he => hx (he ▸ List.mem_map_of_mem hy)
            rw [if_neg hne, id]
          simp [hrest]
      | succ i =>
          have ha : a ∈ l := List.mem_of_getElem? (by simpa using h)
          have hne : key x ≠ key a := fun he => hx (he ▸ List.mem_map_of_mem ha)
          simp [hne, ih hl (by simpa using h)]

/-- **Removing by key is removing by position** when the keys are distinct. -/
theorem filter_ne_eq_eraseIdx [DecidableEq κ] {key : α → κ} (hnd : (l.map key).Nodup)
    (h : l[i]? = some a) : l.filter (fun x => key x ≠ key a) = l.eraseIdx i := by
  induction l generalizing i with
  | nil => simp at h
  | cons x l ih =>
      obtain ⟨hx, hl⟩ := List.nodup_cons.mp hnd
      cases i with
      | zero =>
          obtain rfl : x = a := by simpa using h
          have hrest : l.filter (fun y => key y ≠ key x) = l := by
            refine List.filter_eq_self.mpr fun y hy => ?_
            exact decide_eq_true fun he => hx (he ▸ List.mem_map_of_mem hy)
          simpa using hrest
      | succ i =>
          have ha : a ∈ l := List.mem_of_getElem? (by simpa using h)
          have hne : key x ≠ key a := fun he => hx (he ▸ List.mem_map_of_mem ha)
          have := ih hl (by simpa using h)
          simpa [hne] using this

/-- Distinct keys: a key stands at one position only. -/
theorem eq_of_getElem?_eq {keys : List κ} (hnd : keys.Nodup) {j : ℕ} {k : κ}
    (hi : keys[i]? = some k) (hj : keys[j]? = some k) : i = j := by
  obtain ⟨hi', rfl⟩ := List.getElem?_eq_some_iff.mp hi
  obtain ⟨hj', he⟩ := List.getElem?_eq_some_iff.mp hj
  exact (hnd.getElem_inj_iff.mp he).symm

/-- A column that the edit of this row does not touch. -/
theorem map_modify_of_getElem? {g : α → β} {f : α → α} (h : ∀ x, l[i]? = some x → g (f x) = g x) :
    (l.modify i f).map g = l.map g := by
  refine List.ext_getElem? fun j => ?_
  rw [List.getElem?_map, List.getElem?_modify, List.getElem?_map]
  cases hx : l[j]? with
  | none => rfl
  | some x =>
      by_cases hij : i = j
      · subst hij
        simp [h x hx]
      · simp [hij]

/-- A column that the edit does not touch. -/
theorem map_modify_of_absorb {g : α → β} {f : α → α} (h : ∀ x, g (f x) = g x) :
    (l.modify i f).map g = l.map g :=
  map_modify_of_getElem? fun x _ => h x

/-- Changing a function at one key edits its column at one position. -/
theorem map_eq_modify_map {keys : List κ} {k : κ} (hnd : keys.Nodup) (h : keys[i]? = some k)
    {f g : κ → β} (hfg : ∀ k', k' ≠ k → g k' = f k') :
    keys.map g = (keys.map f).modify i fun _ => g k := by
  refine List.ext_getElem? fun j => ?_
  rw [List.getElem?_map, List.getElem?_modify, List.getElem?_map]
  by_cases hij : i = j
  · subst hij
    simp [h]
  · cases hj : keys[j]? with
    | none => rfl
    | some k' =>
        have hne : k' ≠ k := by
          rintro rfl
          exact hij (eq_of_getElem?_eq hnd h hj)
        simp [hij, hfg k' hne]

/-- Distinct keys: a column that changes at one key only is edited at one position. -/
theorem map_eq_modify_of_key {key : α → κ} (hnd : (l.map key).Nodup) (h : l[i]? = some a)
    {g g' : α → β} {r : β → β} (heq : ∀ x, key x = key a → g' x = r (g x))
    (hne : ∀ x, key x ≠ key a → g' x = g x) : l.map g' = (l.map g).modify i r := by
  refine List.ext_getElem? fun j => ?_
  rw [List.getElem?_modify, List.getElem?_map, List.getElem?_map]
  cases hx : l[j]? with
  | none => rfl
  | some x =>
      by_cases hij : i = j
      · obtain rfl : a = x := Option.some.inj (h.symm.trans (hij ▸ hx))
        simp [hij, heq a rfl]
      · have hkey : key x ≠ key a := by
          intro heq
          refine hij (eq_of_getElem?_eq hnd (k := key a) ?_ ?_)
          · rw [List.getElem?_map, h, Option.map_some]
          · rw [List.getElem?_map, hx, Option.map_some, heq]
        simp [hij, hne x hkey]

/-- A column that the edit changes in step. -/
theorem map_modify_of_comm {g : α → β} {f : α → α} {f' : β → β} (h : ∀ x, g (f x) = f' (g x)) :
    (l.modify i f).map g = (l.map g).modify i f' := by
  refine List.ext_getElem? fun j => ?_
  rw [List.getElem?_map, List.getElem?_modify, List.getElem?_modify, List.getElem?_map]
  cases l[j]? with
  | none => rfl
  | some x =>
      by_cases hij : i = j
      · simp [hij, h]
      · simp [hij]

/-- Distinct keys: a pair of the list is what its key is looked up to. -/
theorem lookup_of_mem [DecidableEq κ] {l : List (κ × β)} (hnd : (l.map Prod.fst).Nodup) {k : κ}
    {v : β} (h : (k, v) ∈ l) : l.lookup k = some v := by
  obtain ⟨l₁, l₂, rfl⟩ := List.append_of_mem h
  refine List.lookup_eq_some_iff.mpr ⟨l₁, l₂, rfl, fun p hp => ?_⟩
  rw [List.map_append, List.map_cons, List.nodup_append] at hnd
  have hne := hnd.2.2 p.1 (List.mem_map_of_mem hp) k List.mem_cons_self
  simpa using hne.symm

/-- Distinct keys: the rows whose key is not among the first ones are the others. -/
theorem filter_not_mem_map [DecidableEq κ] {key : α → κ} {l₁ l₂ : List α}
    (hnd : ((l₁ ++ l₂).map key).Nodup) :
    (l₁ ++ l₂).filter (fun x => key x ∉ l₁.map key) = l₂ := by
  rw [List.map_append, List.nodup_append] at hnd
  rw [List.filter_append, List.filter_eq_nil_iff.mpr, List.filter_eq_self.mpr, List.nil_append]
  · intro x hx
    exact decide_eq_true fun hmem => hnd.2.2 _ hmem _ (List.mem_map_of_mem hx) rfl
  · intro x hx
    simpa using ⟨x, hx, rfl⟩

/-- Erase the first row with each of the keys that are not to be kept. -/
def eraseKeys [DecidableEq κ] (key : α → Option κ) (keep : κ → Bool) (ks : List κ) (l : List α) :
    List α :=
  ks.foldl (fun l k => if keep k then l else l.eraseP fun x => key x = some k) l

/-- One more key. -/
theorem eraseKeys_concat [DecidableEq κ] {key : α → Option κ} {keep : κ → Bool} {ks : List κ}
    {k : κ} : eraseKeys key keep (ks ++ [k]) l =
      if keep k then eraseKeys key keep ks l
      else (eraseKeys key keep ks l).eraseP fun x => key x = some k := by
  rw [eraseKeys, List.foldl_append]
  rfl

/-- A kept row at the head is passed over. -/
theorem eraseKeys_cons_of_keep [DecidableEq κ] {key : α → Option κ} {keep : κ → Bool} {ks : List κ}
    (ha : (key a).all keep = true) :
    eraseKeys key keep ks (a :: l) = a :: eraseKeys key keep ks l := by
  induction ks generalizing l with
  | nil => rfl
  | cons k ks ih =>
      simp only [eraseKeys, List.foldl_cons] at ih ⊢
      by_cases hkeep : keep k = true
      · rw [if_pos hkeep, if_pos hkeep, ih]
      · have hne : key a ≠ some k := by
          intro he
          rw [he] at ha
          exact hkeep ha
        rw [if_neg hkeep, if_neg hkeep, List.eraseP_cons_of_neg (by simpa using hne), ih]

/-- **Erasing by the keys of the table itself** leaves the rows whose key is kept and those
without a key, also when keys repeat. -/
theorem eraseKeys_filterMap [DecidableEq κ] {key : α → Option κ} {keep : κ → Bool} (l : List α) :
    eraseKeys key keep (l.filterMap key) l = l.filter fun x => (key x).all keep := by
  induction l with
  | nil => rfl
  | cons a l ih =>
      rw [List.filter_cons]
      by_cases ha : (key a).all keep = true
      · rw [if_pos ha, ← ih]
        cases hk : key a with
        | none => rw [List.filterMap_cons_none hk, eraseKeys_cons_of_keep ha]
        | some k =>
            have hkeep : keep k = true := by rwa [hk] at ha
            rw [List.filterMap_cons_some hk, ← eraseKeys_cons_of_keep ha]
            simp only [eraseKeys, List.foldl_cons, if_pos hkeep]
      · -- the first row with the key of a head that is not kept is the head itself
        rw [if_neg ha, ← ih]
        cases hk : key a with
        | none => exact absurd (by rw [hk]; rfl) ha
        | some k =>
            have hkeep : ¬ keep k = true := fun h => ha (by rw [hk]; exact h)
            rw [List.filterMap_cons_some hk]
            simp only [eraseKeys, List.foldl_cons, if_neg hkeep]
            rw [List.eraseP_cons_of_pos (by simpa using hk)]

/-! ### Counts -/

/-- **A count after a removal**: the removed row counted if it was. -/
theorem countP_eraseIdx_add (p : α → Bool) (h : l[i]? = some a) :
    (l.eraseIdx i).countP p + (if p a then 1 else 0) = l.countP p := by
  obtain ⟨hi, rfl⟩ := List.getElem?_eq_some_iff.mp h
  rw [← (List.getElem_cons_eraseIdx_perm hi).countP_eq p, List.countP_cons]

/-- **A count after a replacement.** -/
theorem countP_set_add (p : α → Bool) (h : l[i]? = some a) (b : α) :
    (l.set i b).countP p + (if p a then 1 else 0) = l.countP p + (if p b then 1 else 0) := by
  obtain ⟨hi, rfl⟩ := List.getElem?_eq_some_iff.mp h
  rw [(List.set_perm_cons_eraseIdx hi b).countP_eq p, List.countP_cons,
    ← countP_eraseIdx_add p h]
  omega

/-- The total of a number in all rows. -/
def total (g : α → ℕ) (l : List α) : ℕ := l.foldr (fun x n => g x + n) 0

/-- **A total after one row was rewritten.** -/
theorem total_modify_add (g : α → ℕ) (f : α → α) (h : l[i]? = some a) :
    total g (l.modify i f) + g a = total g l + g (f a) := by
  induction l generalizing i with
  | nil => cases h
  | cons b l ih =>
      cases i with
      | zero =>
          cases h
          simp only [List.modify_zero_cons, total, List.foldr_cons]
          omega
      | succ i =>
          have hl := ih h
          simp only [List.modify_succ_cons, total, List.foldr_cons] at hl ⊢
          omega

end Keyed
