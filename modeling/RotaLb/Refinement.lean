import Mathlib.Order.WellFounded
import RotaLb.StepSystem

/-!
# Refinement, Termination and Lock Order

Rules for a system that is looked at on two levels. A concrete run *simulates* an abstract
one if each concrete step amounts to a list of abstract events, most often none or one;
`gather` collects those events along the run. The other rules bound the length of runs by a
measure, and find a task that can go on where tasks take locks in a fixed order.

## Main results

* `run_observes`: **forward simulation with observations** — what the two runs show agrees.
* `run_simulates_along`, `run_simulates`: **forward simulation** — a relation that every concrete
  step carries over relates the ends of whole runs.
* `run_gather`: the induction rule for what the steps of a run contribute.
* `run_realizes`: the converse direction — abstract events that can be carried out one by one
  can be carried out one after the other.
* `run_length_le`: steps that lower a measure are no more than it.
* `exists_run_ne_ok`: **no schedule goes on for ever** where a well-founded measure is lowered.
* `exists_settling_run`: where an unfinished state always has such a step, some run finishes.
* `exists_unblocked`: **no deadlock under a lock order** — among tasks that wait only for locks
  above those they hold, one waits for no lock that is taken.
-/

namespace StepSystem

variable {S E F A T G : Type*} {step : S → E → Except F S} {astep : T → A → Except G T}

/-! ### Simulation -/

/-- A run of one event. -/
theorem run_singleton {s s' : S} {e : E} : run step s [e] = .ok s' ↔ step s e = .ok s' := by
  simp [run_cons_eq_ok]

/-- What the steps of a run contribute, in order. -/
def gather (step : S → E → Except F S) (f : S → E → List A) : S → List E → List A
  | _, [] => []
  | s, e :: es =>
    match step s e with
    | .ok s' => f s e ++ gather step f s' es
    | .error _ => []

/-- What the head of a run contributes comes first. -/
theorem gather_cons {f : S → E → List A} {s s₁ : S} {e : E} (es : List E)
    (h : step s e = .ok s₁) : gather step f s (e :: es) = f s e ++ gather step f s₁ es := by
  simp [gather, h]

/-- What a single step contributes. -/
theorem gather_singleton {f : S → E → List A} {s s₁ : S} {e : E} (h : step s e = .ok s₁) :
    gather step f s [e] = f s e := by
  rw [gather_cons [] h]
  exact List.append_nil _

/-- A run in two parts contributes what its parts do. -/
theorem gather_append {f : S → E → List A} {s s₁ : S} {es : List E} (fs : List E)
    (h : run step s es = .ok s₁) :
    gather step f s (es ++ fs) = gather step f s es ++ gather step f s₁ fs := by
  induction es generalizing s with
  | nil =>
      obtain rfl : s = s₁ := by simpa using h
      rfl
  | cons e es ih =>
      obtain ⟨s₂, h1, h2⟩ := run_cons_eq_ok.mp h
      rw [List.cons_append, gather_cons _ h1, gather_cons _ h1, ih h2, List.append_assoc]

/-- **The induction rule of contributions.** What holds of no contribution and every step carries
over to what has been contributed with it holds at the end of a run with all of them. -/
theorem run_gather {I : List A → S → Prop} {f : S → E → List A} {s s' : S} {es : List E}
    (hs : I [] s) (hstep : ∀ as s e s', I as s → step s e = .ok s' → I (as ++ f s e) s')
    (hrun : run step s es = .ok s') : I (gather step f s es) s' := by
  have hall : ∀ as, I as s → I (as ++ gather step f s es) s' := by
    clear hs
    induction es generalizing s with
    | nil =>
        obtain rfl : s = s' := by simpa using hrun
        exact fun as has => by rwa [gather, List.append_nil]
    | cons e es ih =>
        intro as has
        obtain ⟨s₁, h1, h2⟩ := run_cons_eq_ok.mp hrun
        rw [gather_cons es h1, ← List.append_assoc]
        exact ih h2 _ (hstep as s e s₁ has h1)
  exact hall [] hs

/-- If every step from a state of `I` contributes what `g` says of its event alone, the run
contributes what `g` says of its events. -/
theorem gather_eq_filterMap {I : S → Prop} {C : S → E → Prop} {f : S → E → List A}
    {g : E → Option A}
    (hstep : ∀ s e s', I s → C s e → step s e = .ok s' → f s e = (g e).toList ∧ I s')
    {s s' : S} {es : List E} (hs : I s) (hC : Along step C s es) (hrun : run step s es = .ok s') :
    gather step f s es = es.filterMap g := by
  induction es generalizing s with
  | nil => rfl
  | cons e es ih =>
      obtain ⟨s₁, h1, h2⟩ := run_cons_eq_ok.mp hrun
      obtain ⟨hshow, hI⟩ := hstep s e s₁ hs hC.1 h1
      rw [gather_cons es h1, ih hI (hC.2 s₁ h1) h2, hshow]
      cases hg : g e with
      | none => rw [List.filterMap_cons_none hg, Option.toList_none, List.nil_append]
      | some a => rw [List.filterMap_cons_some hg, Option.toList_some, List.singleton_append]

/-- Steps that contribute nothing. -/
theorem gather_nil {s : S} {es : List E} : gather step (fun _ _ => ([] : List A)) s es = [] := by
  induction es generalizing s with
  | nil => rfl
  | cons e es ih =>
      cases h : step s e with
      | ok s₁ => rw [gather_cons es h, ih, List.nil_append]
      | error f => simp [gather, h]

/-- **Forward simulation with observations.** If every concrete step that meets `C`, from related
states, amounts to the abstract events that `tr` gives for it, shows what they show and leads to
related states, so does every concrete run whose steps meet `C`. -/
theorem run_observes {O : Type*} {R : S → T → Prop} {C : S → E → Prop} {tr : S → E → List A}
    {f : S → E → List O} {g : T → A → List O}
    (hstep : ∀ s e s' t, R s t → C s e → step s e = .ok s' →
      ∃ t', run astep t (tr s e) = .ok t' ∧ gather astep g t (tr s e) = f s e ∧ R s' t')
    {s s' : S} {t : T} {es : List E} (hR : R s t) (hC : Along step C s es)
    (hrun : run step s es = .ok s') :
    ∃ t', run astep t (gather step tr s es) = .ok t' ∧
      gather astep g t (gather step tr s es) = gather step f s es ∧ R s' t' := by
  induction es generalizing s t with
  | nil =>
      obtain rfl : s = s' := by simpa using hrun
      exact ⟨t, rfl, rfl, hR⟩
  | cons e es ih =>
      obtain ⟨s₁, h1, h2⟩ := run_cons_eq_ok.mp hrun
      obtain ⟨t₁, ht₁, hobs₁, hR₁⟩ := hstep s e s₁ t hR hC.1 h1
      obtain ⟨t', ht', hobs', hR'⟩ := ih hR₁ (hC.2 s₁ h1) h2
      refine ⟨t', ?_, ?_, hR'⟩
      · rw [gather_cons es h1]
        exact run_append.mpr ⟨t₁, ht₁, ht'⟩
      · rw [gather_cons es h1, gather_cons es h1, gather_append _ ht₁, hobs₁, hobs']

/-- **Forward simulation.** If every concrete step that meets `C`, from related states, amounts to
the abstract events that `tr` gives for it and leads to related states, so does every concrete run
whose steps meet `C`. -/
theorem run_simulates_along {R : S → T → Prop} {C : S → E → Prop} {tr : S → E → List A}
    (hstep : ∀ s e s' t, R s t → C s e → step s e = .ok s' →
      ∃ t', run astep t (tr s e) = .ok t' ∧ R s' t')
    {s s' : S} {t : T} {es : List E} (hR : R s t) (hC : Along step C s es)
    (hrun : run step s es = .ok s') :
    ∃ t', run astep t (gather step tr s es) = .ok t' ∧ R s' t' := by
  have hsilent : ∀ s e s' t, R s t → C s e → step s e = .ok s' →
      ∃ t', run astep t (tr s e) = .ok t' ∧
        gather astep (fun _ _ => ([] : List Unit)) t (tr s e) = [] ∧ R s' t' := by
    intro s e s' t hR hC h
    obtain ⟨t', ht', hR'⟩ := hstep s e s' t hR hC h
    exact ⟨t', ht', gather_nil, hR'⟩
  obtain ⟨t', ht', -, hR'⟩ := run_observes (f := fun _ _ => []) hsilent hR hC hrun
  exact ⟨t', ht', hR'⟩

/-- Forward simulation without a step condition. -/
theorem run_simulates {R : S → T → Prop} {tr : S → E → List A}
    (hstep : ∀ s e s' t, R s t → step s e = .ok s' →
      ∃ t', run astep t (tr s e) = .ok t' ∧ R s' t')
    {s s' : S} {t : T} {es : List E} (hR : R s t) (hrun : run step s es = .ok s') :
    ∃ t', run astep t (gather step tr s es) = .ok t' ∧ R s' t' :=
  run_simulates_along (fun s e s' t hR _ => hstep s e s' t hR) hR
    (along_of_forall (P := fun _ => True) fun _ _ => trivial) hrun

/-- **Realization.** If every abstract step allowed by `P` from a related state can be carried
out by concrete steps, so can every abstract run of such steps. -/
theorem run_realizes {R : S → T → Prop} {P : A → Prop}
    (hstep : ∀ s t a t', R s t → P a → astep t a = .ok t' →
      ∃ es s', run step s es = .ok s' ∧ R s' t')
    {s : S} {t t' : T} {as : List A} (hR : R s t) (has : ∀ a ∈ as, P a)
    (hrun : run astep t as = .ok t') : ∃ es s', run step s es = .ok s' ∧ R s' t' := by
  induction as generalizing s t with
  | nil =>
      obtain rfl : t = t' := by simpa using hrun
      exact ⟨[], s, rfl, hR⟩
  | cons a as ih =>
      obtain ⟨t₁, h1, h2⟩ := run_cons_eq_ok.mp hrun
      obtain ⟨es, s₁, hes, hR₁⟩ := hstep s t a t₁ hR (has a List.mem_cons_self) h1
      obtain ⟨fs, s', hfs, hR'⟩ := ih hR₁ (fun x hx => has x (List.mem_cons_of_mem _ hx)) h2
      exact ⟨es ++ fs, s', run_append.mpr ⟨s₁, hes, hfs⟩, hR'⟩

/-! ### Termination -/

variable {I : S → Prop} {P : E → Prop} {μ : S → ℕ}

/-- Steps that lower a measure are no more than it. -/
theorem run_length_le (hstep : ∀ s e s', I s → P e → step s e = .ok s' → I s' ∧ μ s' < μ s)
    {s s' : S} {es : List E} (hs : I s) (hes : ∀ e ∈ es, P e) (hrun : run step s es = .ok s') :
    es.length + μ s' ≤ μ s := by
  induction es generalizing s with
  | nil =>
      obtain rfl : s = s' := by simpa using hrun
      simp
  | cons e es ih =>
      obtain ⟨s₁, h1, h2⟩ := run_cons_eq_ok.mp hrun
      obtain ⟨hI, hlt⟩ := hstep s e s₁ hs (hes e List.mem_cons_self) h1
      have hrest := ih hI (fun e' he' => hes e' (List.mem_cons_of_mem _ he')) h2
      rw [List.length_cons]
      omega

/-- Where every unfinished state has a step that lowers the measure, some run of such steps
finishes. -/
theorem exists_settling_run {D : S → Prop}
    (hstep : ∀ s e s', I s → P e → step s e = .ok s' → I s' ∧ μ s' < μ s)
    (hnext : ∀ s, I s → ¬ D s → ∃ e s', P e ∧ step s e = .ok s') {s : S} (hs : I s) :
    ∃ es s', (∀ e ∈ es, P e) ∧ run step s es = .ok s' ∧ D s' := by
  -- Induction on the measure: one step, then the run that settles the rest.
  induction hn : μ s using Nat.strongRecOn generalizing s with
  | ind n ih =>
      by_cases hD : D s
      · exact ⟨[], s, nofun, rfl, hD⟩
      · obtain ⟨e, s₁, he, h1⟩ := hnext s hs hD
        obtain ⟨hI, hlt⟩ := hstep s e s₁ hs he h1
        obtain ⟨es, s', hes, hrun, hD'⟩ := ih (μ s₁) (hn ▸ hlt) hI rfl
        exact ⟨e :: es, s', List.forall_mem_cons.mpr ⟨he, hes⟩,
          run_cons_eq_ok.mpr ⟨s₁, h1, hrun⟩, hD'⟩

/-- **No schedule goes on for ever** where every step lowers a well-founded measure. -/
theorem exists_run_ne_ok {α : Type*} [Preorder α] [WellFoundedLT α] {μ : S → α}
    (hstep : ∀ s e s', I s → P e → step s e = .ok s' → I s' ∧ μ s' < μ s) {s : S} (hs : I s)
    (schedule : ℕ → E) (hP : ∀ n, P (schedule n)) :
    ∃ n, ∀ s', run step s ((List.range n).map schedule) ≠ .ok s' := by
  induction hn : μ s using WellFoundedLT.induction generalizing s schedule with
  | ind _ ih =>
      cases h : step s (schedule 0) with
      | error f =>
          refine ⟨1, fun s' hrun => ?_⟩
          have hone : step s (schedule 0) = .ok s' := run_singleton.mp hrun
          rw [h] at hone
          cases hone
      | ok s₁ =>
          obtain ⟨hI, hlt⟩ := hstep s _ s₁ hs (hP 0) h
          obtain ⟨n, hno⟩ := ih (μ s₁) (hn ▸ hlt) hI (fun i => schedule (i + 1))
            (fun i => hP (i + 1)) rfl
          refine ⟨n + 1, fun s' hrun => ?_⟩
          rw [List.range_succ_eq_map, List.map_cons, List.map_map] at hrun
          obtain ⟨s₂, hs₂, hrun⟩ := run_cons_eq_ok.mp hrun
          cases h.symm.trans hs₂
          exact hno s' hrun

/-! ### Lock order -/

/-- **No deadlock under a lock order.** Tasks wait only for locks ranked above those they hold.
Then some task waits for no lock that a task holds. -/
theorem exists_unblocked {Task Lock : Type*} {live : Task → Prop} {holds waits : Task → Lock → Prop}
    {rank : Lock → ℕ} {bound : ℕ} (hbound : ∀ l, rank l ≤ bound)
    (horder : ∀ t l l', live t → holds t l → waits t l' → rank l < rank l')
    {t : Task} (ht : live t) :
    ∃ t, live t ∧ ∀ l, waits t l → ∀ t', live t' → ¬ holds t' l := by
  by_contra hall
  push Not at hall
  -- A lock waited for has a holder, which waits for a higher lock: the ranks are unbounded.
  have hclimb : ∀ n, ∃ t l, live t ∧ holds t l ∧ n ≤ rank l := by
    intro n
    induction n with
    | zero =>
        obtain ⟨l, -, t₁, ht₁, hl⟩ := hall t ht
        exact ⟨t₁, l, ht₁, hl, Nat.zero_le _⟩
    | succ n ih =>
        obtain ⟨t₁, l, ht₁, hl, hn⟩ := ih
        obtain ⟨l', hwait, t₂, ht₂, hl'⟩ := hall t₁ ht₁
        exact ⟨t₂, l', ht₂, hl', Nat.lt_of_le_of_lt hn (horder t₁ l l' ht₁ hl hwait)⟩
  obtain ⟨-, l, -, -, hl⟩ := hclimb (bound + 1)
  exact absurd (hbound l) (by omega)

end StepSystem
