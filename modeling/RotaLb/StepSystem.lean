import Mathlib.Data.List.Induction
import Mathlib.Tactic.Common

/-!
# Runs of a Stepped System

A system is given by a step function `step : S → E → Except F S`: from a state, an
event leads to the next state, or faults (the event is not enabled there, or the code
panics). `run` replays a list of events, and three predicates speak about the steps of a
run rather than about its last state only:

* `Along C s es`: every step taken by the run satisfies the step condition `C`;
* `Throughout P s es`: every state the run visits satisfies `P`;
* `Reaches I s`: some run from an initial state ends in `s`.

## Main results

* `run_append`: a run of a concatenation is a run of its parts, one after the other.
* `run_invariant` / `run_invariant_along`: **the induction rules** — what every step
  preserves (under the step condition) holds at the end of every run.
* `run_history`: the same, with what the run has been so far.
* `throughout_invariant`: the same, in every state the run visits.
* `along_iff_take`: a step condition along a run, position by position.
* `along_of_last` / `along_of_throughout`: **the backward rules** — from the end of a run, or
  from the states it visits, to the conditions its steps met.
* `run_count`: **the counting rule** — a number that grows by one at each marked step.

Where a step also returns a value, `trace` replays the events and collects the values, and
`trace_rule` is its induction rule.
-/

namespace StepSystem

variable {S E F : Type*} (step : S → E → Except F S)

/-- Replay a list of events from a state; the first fault ends the run. -/
def run : S → List E → Except F S
  | s, [] => .ok s
  | s, e :: es =>
    match step s e with
    | .ok s' => run s' es
    | .error f => .error f

/-- Replay a list of events and test the state they lead to. -/
def ends (p : S → Bool) (s : S) (es : List E) : Bool :=
  match run step s es with
  | .ok s' => p s'
  | .error _ => false

/-- Every step the run takes satisfies the step condition `C`. -/
def Along (C : S → E → Prop) : S → List E → Prop
  | _, [] => True
  | s, e :: es => C s e ∧ ∀ s', step s e = .ok s' → Along C s' es

/-- Every state the run visits satisfies `P`, the first and the last included. -/
def Throughout (P : S → Prop) : S → List E → Prop
  | s, [] => P s
  | s, e :: es => P s ∧ ∀ s', step s e = .ok s' → Throughout P s' es

instance decidableAlong (C : S → E → Prop) [∀ s e, Decidable (C s e)] :
    ∀ s es, Decidable (Along step C s es)
  | _, [] => .isTrue trivial
  | s, e :: es =>
    match h : step s e with
    | .ok s' =>
      have := decidableAlong C s' es
      decidable_of_iff (C s e ∧ Along step C s' es) (by simp [Along, h])
    | .error _ => decidable_of_iff (C s e) (by simp [Along, h])

instance decidableThroughout (P : S → Prop) [∀ s, Decidable (P s)] :
    ∀ s es, Decidable (Throughout step P s es)
  | s, [] => inferInstanceAs (Decidable (P s))
  | s, e :: es =>
    match h : step s e with
    | .ok s' =>
      have := decidableThroughout P s' es
      decidable_of_iff (P s ∧ Throughout step P s' es) (by simp [Throughout, h])
    | .error _ => decidable_of_iff (P s) (by simp [Throughout, h])

/-- The number of steps of the run that are marked by `q`. -/
def count (q : S → E → Bool) : S → List E → ℕ
  | _, [] => 0
  | s, e :: es =>
    match step s e with
    | .ok s' => (if q s e then 1 else 0) + count q s' es
    | .error _ => 0

/-- The states some run reaches from an initial one. -/
def Reaches (I : S → Prop) (s : S) : Prop :=
  ∃ s₀ es, I s₀ ∧ run step s₀ es = .ok s

variable {step}

@[simp] theorem run_nil (s : S) : run step s [] = .ok s := rfl

/-- The head event of a run steps first. -/
theorem run_cons_eq_ok {s s' : S} {e : E} {es : List E} :
    run step s (e :: es) = .ok s' ↔ ∃ s₁, step s e = .ok s₁ ∧ run step s₁ es = .ok s' := by
  cases h : step s e with
  | ok s₁ => simp [run, h]
  | error f => simp [run, h]

/-- A run whose last state passes a test. -/
theorem exists_run_of_ends {p : S → Bool} {s : S} {es : List E} (h : ends step p s es = true) :
    ∃ s', run step s es = .ok s' ∧ p s' = true := by
  unfold ends at h
  split at h
  · exact ⟨_, ‹_›, h⟩
  · cases h

/-- Replaying a concatenation replays the parts in order. -/
theorem run_append {s s' : S} {es fs : List E} :
    run step s (es ++ fs) = .ok s' ↔
      ∃ s₁, run step s es = .ok s₁ ∧ run step s₁ fs = .ok s' := by
  induction es generalizing s with
  | nil => simp
  | cons e es ih =>
      rw [List.cons_append, run_cons_eq_ok]
      constructor
      · rintro ⟨s₁, h1, h2⟩
        obtain ⟨s₂, h3, h4⟩ := ih.mp h2
        exact ⟨s₂, run_cons_eq_ok.mpr ⟨s₁, h1, h3⟩, h4⟩
      · rintro ⟨s₂, h1, h2⟩
        obtain ⟨s₁, h3, h4⟩ := run_cons_eq_ok.mp h1
        exact ⟨s₁, h3, ih.mpr ⟨s₂, h4, h2⟩⟩

/-- One position further along a run. -/
theorem run_take_succ {s s' : S} {e : E} {es : List E} {t : ℕ} (he : es[t]? = some e) :
    run step s (es.take (t + 1)) = .ok s' ↔
      ∃ s₁, run step s (es.take t) = .ok s₁ ∧ step s₁ e = .ok s' := by
  rw [List.take_add_one, he, Option.toList_some, run_append]
  simp [run_cons_eq_ok]

/-- The positions of a run that reaches its end are all reached. -/
theorem exists_run_take {s s' : S} {es : List E} (hrun : run step s es = .ok s') (t : ℕ) :
    ∃ s₁, run step s (es.take t) = .ok s₁ := by
  rw [← List.take_append_drop t es] at hrun
  obtain ⟨s₁, h1, -⟩ := run_append.mp hrun
  exact ⟨s₁, h1⟩

/-- **The induction rule under a step condition.** What every step meeting `C` preserves
holds at the end of every run whose steps all meet `C`. -/
theorem run_invariant_along {C : S → E → Prop} {I : S → Prop}
    (hstep : ∀ s e s', I s → C s e → step s e = .ok s' → I s') {s s' : S} {es : List E}
    (hs : I s) (hC : Along step C s es) (hrun : run step s es = .ok s') : I s' := by
  induction es generalizing s with
  | nil =>
      obtain rfl : s = s' := by simpa using hrun
      exact hs
  | cons e es ih =>
      obtain ⟨s₁, h1, h2⟩ := run_cons_eq_ok.mp hrun
      exact ih (hstep s e s₁ hs hC.1 h1) (hC.2 s₁ h1) h2

/-- **The induction rule with history.** What the empty history has and every step carries over
to the longer history holds at the end of a run with the run as its history. -/
theorem run_history {I : List E → S → Prop} {s s' : S} {es : List E} (hs : I [] s)
    (hstep : ∀ es s e s', I es s → step s e = .ok s' → I (es ++ [e]) s')
    (hrun : run step s es = .ok s') : I es s' := by
  induction es using List.reverseRecOn generalizing s' with
  | nil =>
      obtain rfl : s = s' := by simpa using hrun
      exact hs
  | append_singleton es e ih =>
      obtain ⟨s₁, h1, h2⟩ := run_append.mp hrun
      obtain ⟨_, h3, h4⟩ := run_cons_eq_ok.mp h2
      cases h4
      exact hstep es s₁ e s' (ih h1) h3

/-- **The induction rule.** What every step preserves holds at the end of every run. -/
theorem run_invariant {I : S → Prop}
    (hstep : ∀ s e s', I s → step s e = .ok s' → I s') {s s' : S} {es : List E}
    (hs : I s) (hrun : run step s es = .ok s') : I s' :=
  run_history (I := fun _ => I) hs (fun _ => hstep) hrun

/-- **Progress.** If from every state of `I` each allowed event steps, back into `I`, then
every run of allowed events reaches its end. -/
theorem run_total {I : S → Prop} {P : E → Prop}
    (hstep : ∀ s e, I s → P e → ∃ s', step s e = .ok s' ∧ I s') {s : S} {es : List E}
    (hs : I s) (hes : ∀ e ∈ es, P e) : ∃ s', run step s es = .ok s' ∧ I s' := by
  induction es generalizing s with
  | nil => exact ⟨s, rfl, hs⟩
  | cons e es ih =>
      obtain ⟨s₁, h1, hI⟩ := hstep s e hs (hes e List.mem_cons_self)
      obtain ⟨s', h2, hI'⟩ := ih hI fun e' he' => hes e' (List.mem_cons_of_mem _ he')
      exact ⟨s', run_cons_eq_ok.mpr ⟨s₁, h1, h2⟩, hI'⟩

/-- What every step meeting `C` preserves holds in every state of every run whose steps
all meet `C`. -/
theorem throughout_invariant {C : S → E → Prop} {I : S → Prop}
    (hstep : ∀ s e s', I s → C s e → step s e = .ok s' → I s') {s : S} {es : List E}
    (hs : I s) (hC : Along step C s es) : Throughout step I s es := by
  induction es generalizing s with
  | nil => exact hs
  | cons e es ih =>
      exact ⟨hs, fun s₁ h1 => ih (hstep s e s₁ hs hC.1 h1) (hC.2 s₁ h1)⟩

/-- Every step of a run that reaches its end leads somewhere. -/
theorem along_of_run {s s' : S} {es : List E} (hrun : run step s es = .ok s') :
    Along step (fun s e => ∃ s', step s e = .ok s') s es := by
  induction es generalizing s with
  | nil => trivial
  | cons e es ih =>
      obtain ⟨s₁, h1, h2⟩ := run_cons_eq_ok.mp hrun
      refine ⟨⟨s₁, h1⟩, fun s₂ hs₂ => ?_⟩
      cases h1.symm.trans hs₂
      exact ih h2

/-- A condition on events alone is a step condition met along every run of them. -/
theorem along_of_forall {P : E → Prop} {s : S} {es : List E} (h : ∀ e ∈ es, P e) :
    Along step (fun _ e => P e) s es := by
  induction es generalizing s with
  | nil => trivial
  | cons e es ih =>
      exact ⟨h e List.mem_cons_self, fun s' _ => ih fun e' he' => h e' (List.mem_cons_of_mem _ he')⟩

/-- Two step conditions met along a run are met together. -/
theorem Along.and {C D : S → E → Prop} {s : S} {es : List E} (hC : Along step C s es)
    (hD : Along step D s es) : Along step (fun s e => C s e ∧ D s e) s es := by
  induction es generalizing s with
  | nil => trivial
  | cons e es ih => exact ⟨⟨hC.1, hD.1⟩, fun s' h => ih (hC.2 s' h) (hD.2 s' h)⟩

/-- A step condition met along a run is met at each of its positions. -/
theorem along_iff_take {C : S → E → Prop} {s : S} {es : List E} :
    Along step C s es ↔
      ∀ t e s', es[t]? = some e → run step s (es.take t) = .ok s' → C s' e := by
  induction es generalizing s with
  | nil => simp [Along]
  | cons e₀ es ih =>
      constructor
      · rintro ⟨hC, hrest⟩ t e s' he hrun
        cases t with
        | zero =>
            cases he
            cases hrun
            exact hC
        | succ t =>
            obtain ⟨s₁, h1, h2⟩ := run_cons_eq_ok.mp hrun
            exact ih.mp (hrest s₁ h1) t e s' he h2
      · intro h
        refine ⟨h 0 e₀ s rfl rfl, fun s₁ h1 => ih.mpr fun t e s' he hrun => ?_⟩
        exact h (t + 1) e s' he (run_cons_eq_ok.mpr ⟨s₁, h1, hrun⟩)

/-- A family of step conditions is met along a run exactly when each of them is. -/
theorem along_forall {ι : Type*} {p : ι → Prop} {C : ι → S → E → Prop} {s : S} {es : List E} :
    Along step (fun s e => ∀ i, p i → C i s e) s es ↔ ∀ i, p i → Along step (C i) s es := by
  induction es generalizing s with
  | nil => exact ⟨fun _ _ _ => trivial, fun _ => trivial⟩
  | cons e es ih =>
      constructor
      · exact fun h i hi => ⟨h.1 i hi, fun s' hs => ih.mp (h.2 s' hs) i hi⟩
      · exact fun h => ⟨fun i hi => (h i hi).1, fun s' hs => ih.mpr fun i hi => (h i hi).2 s' hs⟩

/-- Step conditions that agree in the states of an invariant are met along the same runs. -/
theorem along_congr {C C' D : S → E → Prop} {I : S → Prop}
    (hstep : ∀ s e s', I s → D s e → step s e = .ok s' → I s')
    (hiff : ∀ s e, I s → D s e → (C s e ↔ C' s e)) {s : S} {es : List E} (hs : I s)
    (hD : Along step D s es) : Along step C s es ↔ Along step C' s es := by
  induction es generalizing s with
  | nil => exact Iff.rfl
  | cons e es ih =>
      refine and_congr (hiff s e hs hD.1) (forall₂_congr fun s' h1 => ?_)
      exact ih (hstep s e s' hs hD.1 h1) (hD.2 s' h1)

/-- A predicate of every visited state holds in the first one. -/
theorem Throughout.head {P : S → Prop} {s : S} {es : List E} (h : Throughout step P s es) :
    P s := by
  cases es with
  | nil => exact h
  | cons e es => exact h.1

/-- A predicate of every visited state holds after each step taken, read as a step
condition. -/
theorem Throughout.along {P : S → Prop} {s : S} {es : List E} (h : Throughout step P s es) :
    Along step (fun s e => ∀ s', step s e = .ok s' → P s') s es := by
  induction es generalizing s with
  | nil => trivial
  | cons e es ih => exact ⟨fun s' hs => (h.2 s' hs).head, fun s' hs => ih (h.2 s' hs)⟩

/-- A predicate of every visited state may be weakened. -/
theorem Throughout.imp {P Q : S → Prop} (hPQ : ∀ s, P s → Q s) {s : S} {es : List E}
    (h : Throughout step P s es) : Throughout step Q s es := by
  induction es generalizing s with
  | nil => exact hPQ s h
  | cons e es ih => exact ⟨hPQ s h.1, fun s' hs => ih (h.2 s' hs)⟩

/-- A predicate of every visited state holds before each step taken. -/
theorem Throughout.before {P : S → Prop} {s : S} {es : List E} (h : Throughout step P s es) :
    Along step (fun s _ => P s) s es := by
  induction es generalizing s with
  | nil => trivial
  | cons e es ih => exact ⟨h.1, fun s' hs => ih (h.2 s' hs)⟩

/-- **The backward rule.** If what holds after a step held before it and tells that the step
met `C`, then what holds at the end of a run tells that every step met `C`. -/
theorem along_of_last {C D : S → E → Prop} {I Q : S → Prop}
    (hstep : ∀ s e s', I s → D s e → step s e = .ok s' → I s')
    (hback : ∀ s e s', I s → D s e → step s e = .ok s' → Q s' → Q s ∧ C s e) {s s' : S}
    {es : List E} (hs : I s) (hD : Along step D s es) (hrun : run step s es = .ok s')
    (hQ : Q s') : Q s ∧ Along step C s es := by
  induction es generalizing s with
  | nil =>
      obtain rfl : s = s' := by simpa using hrun
      exact ⟨hQ, trivial⟩
  | cons e es ih =>
      obtain ⟨s₁, h1, h2⟩ := run_cons_eq_ok.mp hrun
      obtain ⟨hQ₁, halong⟩ := ih (hstep s e s₁ hs hD.1 h1) (hD.2 s₁ h1) h2
      obtain ⟨hQs, hC⟩ := hback s e s₁ hs hD.1 h1 hQ₁
      refine ⟨hQs, hC, fun s₂ hs₂ => ?_⟩
      obtain rfl : s₁ = s₂ := Except.ok.inj (h1.symm.trans hs₂)
      exact halong

/-- **The converse of an invariant.** If a step from a good state that leads only to states
of `P` met `C`, then a run that stays in `P` met `C` at every step. -/
theorem along_of_throughout {C D : S → E → Prop} {I P : S → Prop}
    (hstep : ∀ s e s', I s → D s e ∧ C s e → step s e = .ok s' → I s')
    (hlocal : ∀ s e, I s → D s e → (∀ s', step s e = .ok s' → P s') → C s e) {s : S}
    {es : List E} (hs : I s) (hD : Along step D s es) (h : Throughout step P s es) :
    Along step C s es := by
  induction es generalizing s with
  | nil => trivial
  | cons e es ih =>
      have hC := hlocal s e hs hD.1 fun s' h1 => (h.2 s' h1).head
      exact ⟨hC, fun s' h1 => ih (hstep s e s' hs ⟨hD.1, hC⟩ h1) (hD.2 s' h1) (h.2 s' h1)⟩

/-- **The counting rule.** A statement about a state and two numbers that every step carries
over, each number growing by one at the steps marked for it, holds at the end of the run with
the counts of its marked steps. -/
theorem run_counts {q r : S → E → Bool} {D : S → E → Prop} {R : ℕ → ℕ → S → Prop}
    (hstep : ∀ n n' s e s', R n n' s → D s e → step s e = .ok s' →
      R (n + if q s e then 1 else 0) (n' + if r s e then 1 else 0) s')
    {n n' : ℕ} {s s' : S} {es : List E} (hs : R n n' s) (hD : Along step D s es)
    (hrun : run step s es = .ok s') : R (n + count step q s es) (n' + count step r s es) s' := by
  induction es generalizing n n' s with
  | nil =>
      obtain rfl : s = s' := by simpa using hrun
      exact hs
  | cons e es ih =>
      obtain ⟨s₁, h1, h2⟩ := run_cons_eq_ok.mp hrun
      have hlast := ih (hstep n n' s e s₁ hs hD.1 h1) (hD.2 s₁ h1) h2
      rwa [count, count, h1, ← Nat.add_assoc, ← Nat.add_assoc]

/-- The counting rule for one number. -/
theorem run_count {q : S → E → Bool} {D : S → E → Prop} {R : ℕ → S → Prop}
    (hstep : ∀ n s e s', R n s → D s e → step s e = .ok s' → R (n + if q s e then 1 else 0) s')
    {n : ℕ} {s s' : S} {es : List E} (hs : R n s) (hD : Along step D s es)
    (hrun : run step s es = .ok s') : R (n + count step q s es) s' :=
  @run_counts _ _ _ step q q D (fun n _ s => R n s) (fun n _ s e s' => hstep n s e s') n n s s' es
    hs hD hrun

/-- Marks that agree in the states of an invariant are counted alike. -/
theorem count_congr {q r : S → E → Bool} {D : S → E → Prop} {I : S → Prop}
    (hstep : ∀ s e s', I s → D s e → step s e = .ok s' → I s')
    (heq : ∀ s e, I s → D s e → q s e = r s e) {s : S} {es : List E} (hs : I s)
    (hD : Along step D s es) : count step q s es = count step r s es := by
  induction es generalizing s with
  | nil => rfl
  | cons e es ih =>
      rw [count, count, heq s e hs hD.1]
      cases h1 : step s e with
      | ok s' =>
          have hrest := ih (hstep s e s' hs hD.1 h1) (hD.2 s' h1)
          simp only [hrest]
      | error f => rfl

/-- No step is marked exactly when the count is 0. -/
theorem count_eq_zero_iff {q : S → E → Bool} {s s' : S} {es : List E}
    (hrun : run step s es = .ok s') :
    count step q s es = 0 ↔ Along step (fun s e => q s e = false) s es := by
  induction es generalizing s with
  | nil => exact ⟨fun _ => trivial, fun _ => rfl⟩
  | cons e es ih =>
      obtain ⟨s₁, h1, h2⟩ := run_cons_eq_ok.mp hrun
      simp only [count, Along, h1, Nat.add_eq_zero_iff, ih h2, Except.ok.injEq, forall_eq']
      simp

/-- An invariant of the initial states and of every step holds in every reachable
state. -/
theorem Reaches.invariant {I J : S → Prop} {s : S} (h : Reaches step I s)
    (hinit : ∀ s, I s → J s) (hstep : ∀ s e s', J s → step s e = .ok s' → J s') : J s := by
  obtain ⟨s₀, es, hI, hrun⟩ := h
  exact run_invariant hstep (hinit s₀ hI) hrun

/-- A run goes on from a reachable state. -/
theorem Reaches.run {I : S → Prop} {s s' : S} {es : List E} (h : Reaches step I s)
    (hrun : StepSystem.run step s es = .ok s') : Reaches step I s' := by
  obtain ⟨s₀, es₀, hI, hrun₀⟩ := h
  exact ⟨s₀, es₀ ++ es, hI, run_append.mpr ⟨s, hrun₀, hrun⟩⟩

/-! ### Steps that return a value -/

section Trace

variable {O : Type*}

/-- Replay a list of events and collect what the steps return. -/
def trace (step : S → E → Except F (O × S)) : S → List E → Except F (List O × S)
  | s, [] => .ok ([], s)
  | s, e :: es =>
    match step s e with
    | .error f => .error f
    | .ok (o, s') =>
      match trace step s' es with
      | .error f => .error f
      | .ok (os, s'') => .ok (o :: os, s'')

variable {step : S → E → Except F (O × S)} {s s' : S} {es fs : List E} {os : List O}

/-- The head event of a trace steps first. -/
theorem trace_cons_eq_ok {e : E} :
    trace step s (e :: es) = .ok (os, s') ↔
      ∃ o s₁ os', step s e = .ok (o, s₁) ∧ trace step s₁ es = .ok (os', s') ∧ os = o :: os' := by
  constructor
  · intro h
    unfold trace at h
    split at h
    · cases h
    · rename_i o s₁ h1
      split at h
      · cases h
      · rename_i os' s₂ h2
        cases h
        exact ⟨o, s₁, os', h1, h2, rfl⟩
  · rintro ⟨o, s₁, os', h1, h2, rfl⟩
    simp only [trace, h1, h2]

/-- A trace of a concatenation is the traces of its parts. -/
theorem trace_append :
    trace step s (es ++ fs) = .ok (os, s') ↔
      ∃ os₁ s₁ os₂, trace step s es = .ok (os₁, s₁) ∧ trace step s₁ fs = .ok (os₂, s') ∧
        os = os₁ ++ os₂ := by
  induction es generalizing s os with
  | nil => simp [trace]
  | cons e es ih =>
      rw [List.cons_append, trace_cons_eq_ok]
      constructor
      · rintro ⟨o, s₁, os', h1, h2, rfl⟩
        obtain ⟨os₁, s₂, os₂, h3, h4, rfl⟩ := ih.mp h2
        exact ⟨_, s₂, os₂, trace_cons_eq_ok.mpr ⟨o, s₁, os₁, h1, h3, rfl⟩, h4, rfl⟩
      · rintro ⟨os₁, s₂, os₂, h1, h2, rfl⟩
        obtain ⟨o, s₁, os', h3, h4, rfl⟩ := trace_cons_eq_ok.mp h1
        exact ⟨o, s₁, _, h3, ih.mpr ⟨os', s₂, os₂, h4, h2, rfl⟩, rfl⟩

/-- **The induction rule of traces.** If every event of the list, at its place, steps and
carries over what the values returned so far say about the state, then so does the whole
list. -/
theorem trace_rule {I : List O → S → Prop} (hs : I [] s)
    (hstep : ∀ os s, ∀ e ∈ es, os.length < es.length → I os s →
      ∃ o s', step s e = .ok (o, s') ∧ I (os ++ [o]) s') :
    ∃ os s', trace step s es = .ok (os, s') ∧ os.length = es.length ∧ I os s' := by
  induction es using List.reverseRecOn with
  | nil => exact ⟨[], s, rfl, rfl, hs⟩
  | append_singleton es e ih =>
      obtain ⟨os, s₁, h1, hlen, hI⟩ := ih fun os s e' he' hlt hI =>
        hstep os s e' (List.mem_append_left _ he') (by rw [List.length_append]; omega) hI
      obtain ⟨o, s', h2, hI'⟩ := hstep os s₁ e (by simp) (by simp [hlen]) hI
      refine ⟨os ++ [o], s', ?_, by simp [hlen], hI'⟩
      exact trace_append.mpr ⟨os, s₁, [o], h1,
        trace_cons_eq_ok.mpr ⟨o, s', [], h2, rfl, rfl⟩, rfl⟩

end Trace

end StepSystem
