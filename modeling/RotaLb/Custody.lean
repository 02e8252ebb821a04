import Mathlib.Data.List.Nodup
import Mathlib.Data.List.Count
import Mathlib.Data.List.Induction
import Mathlib.Tactic.Common

/-!
# Custody of Resources

A resource is taken in once, used while it is held, and released once. A history records
these acts by the key of the resource; `phase` follows one key through it and is `none` from
the first act that is out of order (a second entry, a use before the entry or after the
release, a second release).

`Keeps` relates a history to the resources held and known at its end, and has one rule for
each kind of act.

## Main results

* `Keeps.enter`, `Keeps.use`, `Keeps.release`: the acts of a custodian that enters only
  unknown resources and uses and releases only what it holds.
* `Keeps.count`: **a known resource entered once; it is released once, or held and not
  released.**
* `Keeps.use_before_release`: **no use comes after the release.**
-/

namespace Custody

variable {ι : Type*}

/-- What is done with a resource. -/
inductive Kind
  | enter
  | use
  | release
  deriving DecidableEq

/-- One act on the resource with this key. -/
structure Act (ι : Type*) where
  kind : Kind
  key : ι
  deriving DecidableEq

/-- Where a resource stands. -/
inductive Phase
  | absent
  | held
  | released
  deriving DecidableEq

/-- The moves in order. -/
def Kind.move : Kind → Phase → Option Phase
  | .enter, .absent => some .held
  | .use, .held => some .held
  | .release, .held => some .released
  | _, _ => none

section Phases

variable [DecidableEq ι] {h : List (Act ι)} {i : ι}

/-- One act, seen from the resource `i`. -/
def advance (i : ι) (p : Option Phase) (a : Act ι) : Option Phase :=
  if a.key = i then p.bind a.kind.move else p

/-- Where the resource `i` stands after a history. -/
def phase (h : List (Act ι)) (i : ι) : Option Phase := h.foldl (advance i) (some .absent)

@[simp] theorem phase_nil : phase [] i = some .absent := rfl

theorem phase_concat (a : Act ι) : phase (h ++ [a]) i = advance i (phase h i) a := by
  rw [phase, List.foldl_append, phase, List.foldl_cons, List.foldl_nil]

/-- The same act on distinct resources moves each of them once. -/
theorem phase_append_each {ts : List ι} (hnd : ts.Nodup) (k : Kind) :
    phase (h ++ ts.map (Act.mk k)) i = if i ∈ ts then (phase h i).bind k.move else phase h i := by
  induction ts generalizing h with
  | nil => simp
  | cons t ts ih =>
      obtain ⟨ht, hnd⟩ := List.nodup_cons.mp hnd
      have hstep : h ++ (t :: ts).map (Act.mk k) = (h ++ [⟨k, t⟩]) ++ ts.map (Act.mk k) := by simp
      rw [hstep, ih hnd, phase_concat, advance]
      by_cases hi : t = i
      · subst hi
        simp [ht]
      · simp [hi, Ne.symm hi]

/-- A history in order is in order up to any point. -/
theorem isSome_phase_of_append {pre post : List (Act ι)} (hs : (phase (pre ++ post) i).isSome) :
    (phase pre i).isSome := by
  induction post using List.reverseRecOn with
  | nil => simpa using hs
  | append_singleton post a ih =>
      rw [← List.append_assoc, phase_concat, advance] at hs
      refine ih ?_
      split at hs
      · exact Option.isSome_of_isSome_bind hs
      · exact hs

/-- How often the resource `i` has entered and been released, by where it stands. -/
def Tally (h : List (Act ι)) (i : ι) : Phase → Prop
  | .absent => h.count ⟨.enter, i⟩ = 0 ∧ h.count ⟨.release, i⟩ = 0
  | .held => h.count ⟨.enter, i⟩ = 1 ∧ h.count ⟨.release, i⟩ = 0
  | .released => h.count ⟨.enter, i⟩ = 1 ∧ h.count ⟨.release, i⟩ = 1

/-- The phase tells the counts. -/
theorem tally_of_phase {p : Phase} (hp : phase h i = some p) : Tally h i p := by
  induction h using List.reverseRecOn generalizing p with
  | nil =>
      cases hp
      exact ⟨rfl, rfl⟩
  | append_singleton h a ih =>
      obtain ⟨k, j⟩ := a
      rw [phase_concat, advance] at hp
      split at hp
      · rename_i hj
        subst hj
        obtain ⟨q, hq, hmove⟩ := Option.bind_eq_some_iff.mp hp
        have htally := ih hq
        cases k <;> cases q <;> cases hmove <;>
          simpa [Tally, List.count_append, List.count_singleton] using htally
      · rename_i hj
        have htally := ih hp
        cases p <;> simpa [Tally, List.count_append, List.count_singleton, hj] using htally

end Phases

/-- The history of a custodian who holds and has known these resources, all in order. -/
structure Keeps [DecidableEq ι] (h : List (Act ι)) (holds knows : ι → Prop) : Prop where
  held : ∀ i, holds i → phase h i = some .held
  released : ∀ i, knows i → ¬ holds i → phase h i = some .released
  absent : ∀ i, ¬ knows i → phase h i = some .absent

section Keeps

variable [DecidableEq ι] {h : List (Act ι)} {holds knows : ι → Prop} {ts : List ι} {i t : ι}

theorem keeps_nil : Keeps ([] : List (Act ι)) (fun _ => False) (fun _ => False) :=
  ⟨fun _ hi => hi.elim, fun _ hi => hi.elim, fun _ _ => rfl⟩

theorem Keeps.congr {holds' knows' : ι → Prop} (hk : Keeps h holds knows)
    (hheld : ∀ i, holds' i ↔ holds i) (hknown : ∀ i, knows' i ↔ knows i) : Keeps h holds' knows' :=
  ⟨fun i hi => hk.held i ((hheld i).mp hi),
    fun i hi hn => hk.released i ((hknown i).mp hi) fun hh => hn ((hheld i).mpr hh),
    fun i hi => hk.absent i fun hh => hi ((hknown i).mpr hh)⟩

/-- What is held is known. -/
theorem Keeps.known_of_held (hk : Keeps h holds knows) (hi : holds i) : knows i := by
  by_contra hn
  have := (hk.held i hi).symm.trans (hk.absent i hn)
  cases this

/-- Unknown resources enter. -/
theorem Keeps.enter (hk : Keeps h holds knows) (hnd : ts.Nodup) (hnew : ∀ t ∈ ts, ¬ knows t) :
    Keeps (h ++ ts.map (Act.mk .enter)) (fun i => holds i ∨ i ∈ ts)
      (fun i => knows i ∨ i ∈ ts) := by
  refine ⟨fun i hi => ?_, fun i hi hn => ?_, fun i hi => ?_⟩
  · rw [phase_append_each hnd]
    by_cases ht : i ∈ ts
    · rw [if_pos ht, hk.absent i (hnew i ht)]
      rfl
    · rw [if_neg ht, hk.held i (hi.resolve_right ht)]
  · obtain ⟨hh, ht⟩ := not_or.mp hn
    rw [phase_append_each hnd, if_neg ht, hk.released i (hi.resolve_right ht) hh]
  · obtain ⟨hkn, ht⟩ := not_or.mp hi
    rw [phase_append_each hnd, if_neg ht, hk.absent i hkn]

/-- Held resources are released. -/
theorem Keeps.release (hk : Keeps h holds knows) (hnd : ts.Nodup) (hts : ∀ t ∈ ts, holds t) :
    Keeps (h ++ ts.map (Act.mk .release)) (fun i => holds i ∧ i ∉ ts) knows := by
  refine ⟨fun i hi => ?_, fun i hi hn => ?_, fun i hi => ?_⟩
  · rw [phase_append_each hnd, if_neg hi.2, hk.held i hi.1]
  · rw [phase_append_each hnd]
    by_cases ht : i ∈ ts
    · rw [if_pos ht, hk.held i (hts i ht)]
      rfl
    · rw [if_neg ht, hk.released i hi fun hh => hn ⟨hh, ht⟩]
  · have ht : i ∉ ts := fun ht => hi (hk.known_of_held (hts i ht))
    rw [phase_append_each hnd, if_neg ht, hk.absent i hi]

/-- A held resource is used. -/
theorem Keeps.use (hk : Keeps h holds knows) (ht : holds t) :
    Keeps (h ++ [⟨.use, t⟩]) holds knows := by
  have hsame : ∀ i, phase (h ++ [⟨.use, t⟩]) i = phase h i := by
    intro i
    rw [phase_concat, advance]
    split
    · rename_i hti
      subst hti
      rw [hk.held t ht]
      rfl
    · rfl
  exact ⟨fun i hi => (hsame i).trans (hk.held i hi),
    fun i hi hn => (hsame i).trans (hk.released i hi hn),
    fun i hi => (hsame i).trans (hk.absent i hi)⟩

/-- Every resource stands somewhere: nothing was out of order. -/
theorem Keeps.isSome_phase (hk : Keeps h holds knows) (i : ι) : (phase h i).isSome := by
  by_cases hkn : knows i
  · by_cases hh : holds i
    · rw [hk.held i hh]
      rfl
    · rw [hk.released i hkn hh]
      rfl
  · rw [hk.absent i hkn]
    rfl

/-- **What is known entered once; what is held was not released; the rest was released once.** -/
theorem Keeps.count (hk : Keeps h holds knows) (hi : knows i) :
    h.count ⟨.enter, i⟩ = 1 ∧
      (holds i ∧ h.count ⟨.release, i⟩ = 0 ∨ ¬ holds i ∧ h.count ⟨.release, i⟩ = 1) := by
  by_cases hh : holds i
  · obtain ⟨henter, hrelease⟩ := tally_of_phase (hk.held i hh)
    exact ⟨henter, .inl ⟨hh, hrelease⟩⟩
  · obtain ⟨henter, hrelease⟩ := tally_of_phase (hk.released i hi hh)
    exact ⟨henter, .inr ⟨hh, hrelease⟩⟩

/-- Only what is known has entered. -/
theorem Keeps.mem_enter_iff (hk : Keeps h holds knows) : ⟨.enter, i⟩ ∈ h ↔ knows i := by
  constructor
  · intro hmem
    by_contra hkn
    have hzero := (tally_of_phase (hk.absent i hkn)).1
    exact List.count_eq_zero.mp hzero hmem
  · intro hkn
    have hone := (hk.count hkn).1
    exact List.count_pos_iff.mp (by omega)

/-- **No use comes after the release.** -/
theorem Keeps.use_before_release (hk : Keeps h holds knows) {pre post : List (Act ι)}
    (hsplit : h = pre ++ ⟨.use, t⟩ :: post) : ⟨.release, t⟩ ∉ pre := by
  have hsome : (phase (pre ++ [⟨.use, t⟩] ++ post) t).isSome := by
    have := hk.isSome_phase t
    rwa [hsplit, List.append_cons] at this
  have huse := isSome_phase_of_append hsome
  rw [phase_concat, advance, if_pos rfl] at huse
  obtain ⟨q, hq⟩ := Option.isSome_iff_exists.mp huse
  obtain ⟨p, hp, hmove⟩ := Option.bind_eq_some_iff.mp hq
  -- only a held resource can be used
  cases p with
  | absent | released => cases hmove
  | held => exact List.count_eq_zero.mp (tally_of_phase hp).2

end Keeps

end Custody
