import RotaLb.IndexSafety
import RotaLb.Keyed
import RotaLb.LockRefinement

/-!
# The Locks Never Block for Good

A call holds the metrics lock while it waits for the strategy lock, and everyone else waits with
empty hands: the strategy lock ranks above the metrics lock, and no task waits for a lock ranked
below one it holds. So whatever the tasks inside and before the locks do, one of them can go on,
and since each of their steps uses up some of the work that is left, they all get through. A call
that is dropped, a new call and a reader that comes are steps of the environment; they are not
needed for it.

## Main results

* `work_step`: every step inside or into a lock lowers `work`.
* `lock_step_ne_panic`: **no such step panics**, whatever `pick` draws.
* `exists_lock_step`: **no deadlock** — unless every task is outside the locks, some such step is
  possible.
* `locks_drain`: **any schedule of such steps ends, with every task outside the locks**.
-/

namespace RotaLb

open Rust StepSystem

variable {σ : Type}

/-- The step belongs to a task that is inside a lock or takes one. -/
def LockEvent.onLocks : LockEvent σ → Bool
  | .callMetrics _ | .callStrategy | .pick _ | .dialMetrics _ | .dialStrategy _ | .report _
  | .tryWrite _ | .assign | .release | .unread | .unreadName => true
  | _ => false

/-- The reconfigurations bring in no strategy that breaks the contract of `pick`. -/
def LockEvent.Lawful [BalanceStrategy σ] [LawfulStrategy σ] : LockEvent σ → Prop
  | .reconfigure e => e.Lawful
  | _ => True

/-- The writer's share of the work: it has that many steps to go and a lock to give back. -/
def Writer.work : Writer → ℕ
  | .calling _ => 9
  | .picking _ => 8
  | .counting _ _ _ _ todo => 5 + todo.length
  | .dialing _ _ todo | .dropping _ _ todo => todo.length

theorem Writer.work_relabel (x : Writer) (f g : ℕ → ℕ) : (x.relabel f g).work = x.work := by
  cases x <;> rfl

/-- The holder's share of the work. -/
def Holder.work : Holder → ℕ
  | .dial _ => 0
  | .reader => 2

namespace Locked

/-- The work that is left to the tasks inside and before the locks. A lock that is free counts
more than one that is held, so that taking it is progress; a section counts more than the lock
it gives back. -/
def work (s : Locked σ) : ℕ :=
  6 * s.calls.length + 5 * s.world.dials.countP (·.phase.assigns.isSome) +
    2 * s.world.dials.countP (·.phase.atLock) + 5 * s.world.drops.length +
    s.writer.elim 4 Writer.work + s.holder.elim 1 Holder.work + s.readers

/-- Every task is outside the locks. -/
structure Idle (s : Locked σ) : Prop where
  calls : s.calls = []
  writer : s.writer = none
  readers : s.readers = 0
  holder : s.holder = none
  drops : s.world.drops = []
  dials : ∀ d ∈ s.world.dials, d.phase.atLock = false

section Measure

variable [BalanceStrategy σ] {env : Env} {s s' : Locked σ} {w : World σ}

omit [BalanceStrategy σ] in
/-- An assignment is one less to run. -/
theorem work_assign (hs : s.assign = .ok s') : s'.work < s.work := by
  unfold Locked.assign at hs
  split at hs
  · rename_i hwr
    split at hs
    · cases hs
      simp [work, hwr, Writer.work]
    · cases hs
  · rename_i hwr
    obtain ⟨d, -, hs⟩ := onItem_eq_ok.mp hs
    cases hs
    simp [work, hwr, Writer.work, World.onMetrics]
  · rename_i hwr
    obtain ⟨p, -, hs⟩ := onItem_eq_ok.mp hs
    cases hs
    simp [work, hwr, Writer.work, World.onMetrics]
  · cases hs

/-- A dial that has recorded its end still has to report it. -/
theorem recorded_of_assigns {p : Phase} {as : List Assign} (h : p.assigns = some as) :
    p.recorded.assigns = none ∧ p.recorded.atLock = true ∧ as.length ≤ 3 := by
  cases p with
  | successMetrics =>
      cases h
      exact ⟨rfl, rfl, by decide⟩
  | errorMetrics e =>
      cases h
      exact ⟨rfl, rfl, by decide⟩
  | _ => cases h

/-- A release gives back less than the section was worth. -/
theorem work_release (h : Mirrors env s w) (hs : s.release = .ok s') : s'.work < s.work := by
  have hworld := h.world
  unfold Locked.release at hs
  split at hs
  · rename_i hwr
    split at hs
    · cases hs
      simp [work, hwr, Writer.work, Phase.atLock, Phase.assigns, Phase.reports]
    · cases hs
  · rename_i k done hwr
    rw [hwr] at hworld
    obtain ⟨d, hd, hassigns, heq⟩ := hworld
    obtain ⟨d', hd', hs⟩ := onItem_eq_ok.mp hs
    obtain rfl : d' = d := Option.some.inj (hd'.symm.trans (by rw [heq]; exact hd))
    cases hs
    obtain ⟨hnone, hlock, -⟩ := recorded_of_assigns hassigns
    have h₁ := Keyed.countP_set_add (fun d => d.phase.assigns.isSome) hd'
      { d' with phase := d'.phase.recorded }
    have h₂ := Keyed.countP_set_add (fun d => d.phase.atLock) hd'
      { d' with phase := d'.phase.recorded }
    have hbefore : d'.phase.atLock = true := by simp [Phase.atLock, hassigns]
    simp only [hassigns, hnone, hlock, hbefore, Option.isSome_some, Option.isSome_none,
      Bool.false_eq_true, if_true, if_false] at h₁ h₂
    simp only [work, hwr, World.goto, Option.elim, Writer.work, List.length_nil]
    omega
  · rename_i j done hwr
    obtain ⟨p, hp, hs⟩ := onItem_eq_ok.mp hs
    cases hs
    have hlen := List.length_eraseIdx_add_one (List.getElem?_eq_some_iff.mp hp).1
    simp only [work, hwr, Option.elim, Writer.work, List.length_nil]
    omega
  · cases hs

omit [BalanceStrategy σ] in
theorem work_relabel (wr : Option Writer) (f g : ℕ → ℕ) :
    (wr.map (·.relabel f g)).elim 4 Writer.work = wr.elim 4 Writer.work := by
  cases wr <;> simp [Writer.work_relabel]

/-- The dials and drops are those of the world shown. -/
theorem Mirrors.dials (h : Mirrors env s w) : s.world.dials = w.dials := by
  rw [h.world.frame.1]
  rfl

/-- **Every step inside or into a lock lowers the work.** -/
theorem work_step {e : LockEvent σ} (h : Mirrors env s w) (he : e.onLocks = true)
    (hs : s.step env e = .ok s') : s'.work < s.work := by
  cases e with
  | callMetrics c =>
      obtain ⟨x, hx, hs⟩ := onItem_eq_ok.mp hs
      obtain ⟨⟨hfree, -⟩, rfl⟩ := guarded_eq_ok.mp hs
      have hlen := List.length_eraseIdx_add_one (List.getElem?_eq_some_iff.mp hx).1
      simp only [work, hfree, Option.elim, Writer.work]
      omega
  | callStrategy =>
      simp only [step] at hs
      split at hs
      · rename_i x hwr
        obtain ⟨-, rfl⟩ := guarded_eq_ok.mp hs
        simp only [work, hwr, Option.elim, Writer.work]
        omega
      · cases hs
  | pick draw =>
      simp only [step] at hs
      split at hs
      · rename_i x hwr
        split at hs
        · cases hs
          simp only [work, hwr, Option.elim, Writer.work, World.onStrategy, Assign.countDial,
            List.length_cons, List.length_nil]
          omega
        · cases hs
      · cases hs
  | dialMetrics k =>
      obtain ⟨d, hd, hs⟩ := onItem_eq_ok.mp hs
      cases hassigns : d.phase.assigns with
      | none => simp [hassigns] at hs
      | some as =>
          rw [hassigns] at hs
          obtain ⟨⟨hfree, -⟩, rfl⟩ := guarded_eq_ok.mp hs
          have hlen := (recorded_of_assigns hassigns).2.2
          simp only [work, hfree, Option.elim, Writer.work]
          omega
  | dialStrategy k =>
      obtain ⟨d, hd, hs⟩ := onItem_eq_ok.mp hs
      obtain ⟨⟨-, hfree, -⟩, rfl⟩ := guarded_eq_ok.mp hs
      simp only [work, hfree, Option.elim, Holder.work]
      omega
  | report k =>
      simp only [step] at hs
      split at hs
      · rename_i hholder
        obtain ⟨v, hv, rfl⟩ := within_eq_ok.mp hs
        have hlock : s.world.step env (.lockStrategy k) = .ok v := hv
        obtain ⟨hdials, hdrops⟩ := World.tasks_of_lockStrategy hlock
        obtain ⟨d, hd, hreports⟩ := h.holder k hholder
        rw [← h.dials] at hd
        have h₁ := Keyed.countP_eraseIdx_add (fun d => d.phase.assigns.isSome) hd
        have h₂ := Keyed.countP_eraseIdx_add (fun d => d.phase.atLock) hd
        have hnone : d.phase.assigns.isSome = false := by
          by_contra hsome
          simp [Phase.reports_of_assigns (Bool.not_eq_false _ ▸ hsome)] at hreports
        have hlock : d.phase.atLock = true := by simp [Phase.atLock, hreports]
        simp only [hnone, hlock, Bool.false_eq_true, if_true, if_false] at h₁ h₂
        simp only [work, forget, hdials, hdrops, hholder, Holder.work, work_relabel,
          Option.elim_some, Option.elim_none]
        omega
      · cases hs
  | tryWrite d =>
      obtain ⟨p, hp, hs⟩ := onItem_eq_ok.mp hs
      obtain ⟨-, rfl⟩ := guarded_eq_ok.mp hs
      have hlen := List.length_eraseIdx_add_one (List.getElem?_eq_some_iff.mp hp).1
      by_cases hfree : s.MetricsFree
      · simp only [tryWrite, hfree, if_true, work, hfree.1, Option.elim, Writer.work,
          Assign.dropGuard, List.length_cons, List.length_nil]
        omega
      · simp only [tryWrite, hfree, if_false, work, World.dropWrite, work_relabel,
          Bool.false_eq_true]
        omega
  | assign => exact work_assign hs
  | release => exact work_release h hs
  | unread =>
      obtain ⟨hpos, rfl⟩ := guarded_eq_ok.mp hs
      simp only [work]
      omega
  | unreadName =>
      obtain ⟨hreader, rfl⟩ := guarded_eq_ok.mp hs
      simp only [work, hreader, Option.elim, Holder.work]
      omega
  | _ => simp [LockEvent.onLocks] at he

end Measure

/-! ### Who waits for whom -/

/-- The two locks. -/
inductive Lock
  | metrics
  | strategy

/-- The order in which the locks are taken. -/
def Lock.rank : Lock → ℕ
  | .metrics => 0
  | .strategy => 1

/-- A task inside the locks or before them. -/
inductive Task
  | writer
  | holder
  | reader
  | call (c : ℕ)
  | dial (k : ℕ)
  | drop (d : ℕ)

/-- The task is there. A dial and a drop are counted here while they do not have a lock. -/
def Live (s : Locked σ) : Task → Prop
  | .writer => s.writer ≠ none
  | .holder => s.holder ≠ none
  | .reader => 0 < s.readers
  | .call c => c < s.calls.length
  | .dial k => (∃ d, s.world.dials[k]? = some d ∧ d.phase.atLock = true) ∧ s.Outside k
  | .drop d => d < s.world.drops.length ∧ s.writer.any (·.isDrop d) = false

/-- The task has the lock. -/
def Holds (s : Locked σ) : Task → Lock → Prop
  | .writer, .metrics | .reader, .metrics | .holder, .strategy => True
  | .writer, .strategy => s.writer.any Writer.hasStrategy = true
  | _, _ => False

/-- The task waits for the lock. The drop guard waits for none. -/
def Waits (s : Locked σ) : Task → Lock → Prop
  | .writer, .strategy => ∃ x, s.writer = some (.calling x)
  | .call _, .metrics => True
  | .dial k, .metrics => ∃ d, s.world.dials[k]? = some d ∧ d.phase.assigns.isSome = true
  | .dial k, .strategy => ∃ d, s.world.dials[k]? = some d ∧ d.phase.reports = true
  | _, _ => False

/-- **The locks are taken in order.** -/
theorem lock_order {s : Locked σ} {t : Task} {l l' : Lock} (hholds : s.Holds t l)
    (hwaits : s.Waits t l') : l.rank < l'.rank := by
  cases t with
  | writer =>
      cases l' with
      | metrics => exact hwaits.elim
      | strategy =>
          cases l with
          | metrics => exact Nat.zero_lt_one
          | strategy =>
              obtain ⟨x, hx⟩ := hwaits
              simp [Holds, hx, Writer.hasStrategy] at hholds
  | holder | reader | drop => cases l' <;> exact hwaits.elim
  | call | dial => cases l <;> exact hholds.elim

/-- Nobody has the metrics lock if no task does. -/
theorem metricsFree_of_not_holds {s : Locked σ} (h : ∀ t, s.Live t → ¬ s.Holds t .metrics) :
    s.MetricsFree := by
  refine ⟨?_, ?_⟩
  · by_contra hne
    exact h .writer hne trivial
  · by_contra hne
    exact h .reader (Nat.pos_of_ne_zero hne) trivial

/-- Nobody has the strategy lock if no task does. -/
theorem strategyFree_of_not_holds {s : Locked σ} (h : ∀ t, s.Live t → ¬ s.Holds t .strategy) :
    s.StrategyFree := by
  refine ⟨?_, ?_⟩
  · by_contra hne
    exact h .holder hne trivial
  · by_contra hne
    have hany : s.writer.any Writer.hasStrategy = true := by simpa using hne
    refine h .writer ?_ hany
    intro hnone
    simp [hnone] at hany

/-- Unless every task is outside the locks, there is one inside or before them. -/
theorem exists_live {s : Locked σ} (h : ¬ s.Idle) : ∃ t, s.Live t := by
  by_contra hall
  push Not at hall
  have hwriter : s.writer = none := by simpa [Live] using hall .writer
  have hholder : s.holder = none := by simpa [Live] using hall .holder
  refine h ⟨?_, hwriter, by simpa [Live] using hall .reader, hholder, ?_, fun d hd => ?_⟩
  · by_contra hne
    exact hall (.call 0) (List.length_pos_iff.mpr hne)
  · by_contra hne
    exact hall (.drop 0) ⟨List.length_pos_iff.mpr hne, by simp [hwriter]⟩
  · by_contra hlock
    obtain ⟨k, hk⟩ := List.mem_iff_getElem?.mp hd
    exact hall (.dial k) ⟨⟨d, hk, by simpa using hlock⟩, by simp [Outside, hwriter, hholder]⟩

section Progress

variable [BalanceStrategy σ] [LawfulStrategy σ] {env : Env} {s s' : Locked σ} {w : World σ}

/-- A call inside the locks has a row to pick. -/
theorem Mirrors.metrics_pos (h : Mirrors env s w) (hw : w.Steady) {x : DialCall}
    (hx : s.writer.bind Writer.call? = some x) : 0 < w.lb.metrics.length := by
  rw [hw.metrics, List.length_pos_iff]
  exact (h.calls x (.inr hx)).2

/-- Every draw of `pick` gives a row, to a writer that is about to pick. -/
theorem Mirrors.pick_ok (h : Mirrors env s w) (hw : w.Steady) {x : DialCall}
    (hwr : s.writer = some (.picking x)) (draw : ℕ) :
    ∃ r, BalanceStrategy.pick env draw s.world.lb.strategy ⟨x.addr, s.world.lb.metrics⟩ =
      .ok r := by
  have hworld := h.world
  rw [hwr] at hworld
  obtain rfl : s.world = w := hworld
  have hpos := h.metrics_pos hw (x := x) (by simp [hwr, Writer.call?])
  obtain ⟨row, strategy, hpick, -, -⟩ := LawfulStrategy.pick_ok env draw hw.strategy
    (show 0 < PoolView.len ⟨x.addr, s.world.lb.metrics⟩ from hpos)
  exact ⟨_, hpick⟩

/-- The picked row is there, among the metrics and among the backends. -/
theorem Mirrors.row_lt (h : Mirrors env s w) (hw : w.Steady) {x : DialCall} {draw row : ℕ}
    {done todo : List Assign} (hwr : s.writer = some (.counting x draw row done todo)) :
    row < s.world.lb.metrics.length ∧ row < s.world.lb.backends.length := by
  have hworld := h.world
  rw [hwr] at hworld
  obtain ⟨-, -, strategy, hpick, heq⟩ := hworld
  have hpos := h.metrics_pos hw (x := x) (by simp [hwr, Writer.call?])
  obtain ⟨row', strategy', hpick', hlt, -⟩ := LawfulStrategy.pick_ok env draw
    hw.strategy (show 0 < PoolView.len ⟨x.addr, w.lb.metrics⟩ from hpos)
  cases hpick.symm.trans hpick'
  have hrow : row < w.lb.metrics.length := hlt
  rw [heq]
  exact ⟨by simpa [World.onStrategy, World.onMetrics] using hrow, hw.metrics ▸ hrow⟩

/-- The report of a dial that holds the strategy lock returns. -/
theorem Mirrors.report_ok (h : Mirrors env s w) (hw : w.Steady) {k : ℕ}
    (hholder : s.holder = some (.dial k)) :
    ∃ v, World.onItem s.world.dials k (fun d => s.world.lockStrategy k d) = .ok v := by
  obtain ⟨d, hd, hreports⟩ := h.holder k hholder
  have hstrategy : LawfulStrategy.Good s.world.lb.strategy := by
    rw [h.world.frame.2 (h.apart (by simp [hholder]))]
    exact hw.strategy
  rw [← h.dials] at hd
  simp only [World.onItem, hd]
  cases hphase : d.phase with
  | successStrategy =>
      obtain ⟨strategy, hr, -⟩ := LawfulStrategy.reportSuccess_ok d.index hstrategy
      simp [World.lockStrategy, hphase, LoadBalancer.reportSuccess, hr, bind, Except.bind,
        pure, Except.pure]
  | errorStrategy err =>
      obtain ⟨strategy, hr, -⟩ := LawfulStrategy.reportError_ok d.index hstrategy
      simp [World.lockStrategy, hphase, LoadBalancer.reportError, hr, bind, Except.bind, pure,
        Except.pure]
  | _ => simp [hphase, Phase.reports] at hreports

/-- The writer goes on, unless it waits for the strategy lock. -/
theorem writer_goes_on (h : Mirrors env s w) (hw : w.Steady) (hlive : s.writer ≠ none)
    (hfree : (∃ x, s.writer = some (.calling x)) → s.StrategyFree) :
    ∃ e, e.onLocks = true ∧ ∃ s', s.step env e = .ok s' := by
  have hworld := h.world
  obtain ⟨wr, hwr⟩ := Option.ne_none_iff_exists'.mp hlive
  rw [hwr] at hworld
  cases wr with
  | calling x =>
      refine ⟨.callStrategy, rfl, ?_⟩
      simp [step, hwr, guarded, hfree ⟨x, hwr⟩]
  | picking x =>
      obtain ⟨r, hpick⟩ := h.pick_ok hw hwr 0
      exact ⟨.pick 0, rfl, by simp [step, hwr, hpick]⟩
  | counting x draw row done todo =>
      obtain ⟨hrow, hbackend⟩ := h.row_lt hw hwr
      cases todo with
      | nil => exact ⟨.release, rfl, by simp [step, Locked.release, hwr, Vec.get_of_lt hbackend]⟩
      | cons a todo => exact ⟨.assign, rfl, by simp [step, Locked.assign, hwr, Vec.modify, hrow]⟩
  | dialing k done todo =>
      obtain ⟨d, hd, -, -⟩ := hworld
      rw [← h.dials] at hd
      cases todo with
      | nil => exact ⟨.release, rfl, by simp [step, Locked.release, hwr, onItem, hd]⟩
      | cons a todo => exact ⟨.assign, rfl, by simp [step, Locked.assign, hwr, onItem, hd]⟩
  | dropping j done todo =>
      obtain ⟨-, p, hp, heq⟩ := hworld
      have hp : s.world.drops[j]? = some p := by rwa [heq]
      cases todo with
      | nil => exact ⟨.release, rfl, by simp [step, Locked.release, hwr, onItem, hp]⟩
      | cons a todo => exact ⟨.assign, rfl, by simp [step, Locked.assign, hwr, onItem, hp]⟩

/-- The holder of the strategy lock goes on. -/
theorem holder_goes_on (h : Mirrors env s w) (hw : w.Steady) (hlive : s.holder ≠ none) :
    ∃ e, e.onLocks = true ∧ ∃ s', s.step env e = .ok s' := by
  obtain ⟨x, hx⟩ := Option.ne_none_iff_exists'.mp hlive
  cases x with
  | reader => exact ⟨.unreadName, rfl, _, guarded_eq_ok.mpr ⟨hx, rfl⟩⟩
  | dial k =>
      obtain ⟨v, hv⟩ := h.report_ok hw hx
      exact ⟨.report k, rfl, by simp [step, hx, hv, within]⟩

omit [BalanceStrategy σ] [LawfulStrategy σ] in
theorem guarded_ne_panic (c : Prop) [Decidable c] (s : Locked σ) (p : Panic) :
    guarded c s ≠ .error (.panic p) := by
  unfold guarded
  split <;> simp

omit [BalanceStrategy σ] [LawfulStrategy σ] in
theorem onItem_ne_panic {α : Type} {l : List α} {k : ℕ} {f : α → Except Fault (Locked σ)}
    {p : Panic} (h : ∀ a, f a ≠ .error (.panic p)) : onItem l k f ≠ .error (.panic p) := by
  unfold onItem
  split
  · exact h _
  · simp

/-- **No step inside or into a lock panics**, whatever `pick` draws. -/
theorem lock_step_ne_panic (h : Mirrors env s w) (hw : w.Steady) {e : LockEvent σ}
    (he : e.onLocks = true) (p : Panic) : s.step env e ≠ .error (.panic p) := by
  cases e with
  | callMetrics c => exact onItem_ne_panic fun x => guarded_ne_panic _ _ p
  | callStrategy =>
      simp only [step]
      split
      · exact guarded_ne_panic _ _ p
      · simp
  | pick draw =>
      simp only [step]
      split
      · rename_i x hwr
        obtain ⟨r, hpick⟩ := h.pick_ok hw hwr draw
        simp [hpick]
      · simp
  | dialMetrics k =>
      refine onItem_ne_panic fun d => ?_
      split
      · exact guarded_ne_panic _ _ p
      · simp
  | dialStrategy k => exact onItem_ne_panic fun d => guarded_ne_panic _ _ p
  | report k =>
      simp only [step]
      split
      · rename_i hholder
        obtain ⟨v, hv⟩ := h.report_ok hw hholder
        simp [hv, within]
      · simp
  | tryWrite d => exact onItem_ne_panic fun q => guarded_ne_panic _ _ p
  | assign =>
      simp only [step, Locked.assign]
      split
      · rename_i hwr
        simp [Vec.modify, (h.row_lt hw hwr).1]
      · exact onItem_ne_panic fun d => by simp
      · exact onItem_ne_panic fun q => by simp
      · simp
  | release =>
      simp only [step, Locked.release]
      split
      · rename_i hwr
        simp [Vec.get_of_lt (h.row_lt hw hwr).2]
      · exact onItem_ne_panic fun d => by simp
      · exact onItem_ne_panic fun q => by simp
      · simp
  | unread | unreadName => exact guarded_ne_panic _ _ p
  | _ => cases he

/-- **No deadlock.** Unless every task is outside the locks, one of those inside or before them
can go on. -/
theorem exists_lock_step (h : Mirrors env s w) (hw : w.Steady) (hidle : ¬ s.Idle) :
    ∃ e, e.onLocks = true ∧ ∃ s', s.step env e = .ok s' := by
  obtain ⟨t₀, ht₀⟩ := exists_live hidle
  have hrank : ∀ l : Lock, l.rank ≤ 1 := by
    intro l
    cases l <;> decide
  have horder : ∀ t l l', s.Live t → s.Holds t l → s.Waits t l' → l.rank < l'.rank :=
    fun _ _ _ _ => lock_order
  obtain ⟨t, ht, hunblocked⟩ := exists_unblocked hrank horder ht₀
  cases t with
  | writer =>
      exact writer_goes_on h hw ht fun hwaits =>
        strategyFree_of_not_holds (hunblocked .strategy hwaits)
  | holder => exact holder_goes_on h hw ht
  | reader =>
      exact ⟨.unread, rfl, _, guarded_eq_ok.mpr ⟨ht, rfl⟩⟩
  | call c =>
      have hfree := metricsFree_of_not_holds (hunblocked .metrics trivial)
      exact ⟨.callMetrics c, rfl, _, onItem_eq_ok.mpr ⟨_, List.getElem?_eq_getElem ht,
        guarded_eq_ok.mpr ⟨hfree, rfl⟩⟩⟩
  | dial k =>
      obtain ⟨⟨d, hd, hlock⟩, -⟩ := ht
      rcases Bool.or_eq_true_iff.mp hlock with hassigns | hreports
      · have hfree := metricsFree_of_not_holds (hunblocked .metrics ⟨d, hd, hassigns⟩)
        obtain ⟨as, has⟩ := Option.isSome_iff_exists.mp hassigns
        exact ⟨.dialMetrics k, rfl, by simp [step, onItem, hd, has, guarded, hfree]⟩
      · have hfree := strategyFree_of_not_holds (hunblocked .strategy ⟨d, hd, hreports⟩)
        exact ⟨.dialStrategy k, rfl, _, onItem_eq_ok.mpr ⟨d, hd,
          guarded_eq_ok.mpr ⟨⟨hreports, hfree⟩, rfl⟩⟩⟩
  | drop d =>
      obtain ⟨hlt, hnot⟩ := ht
      exact ⟨.tryWrite d, rfl, _, onItem_eq_ok.mpr ⟨_, List.getElem?_eq_getElem hlt,
        guarded_eq_ok.mpr ⟨hnot, rfl⟩⟩⟩

/-- The state shows a world from which no event panics. -/
def Sound (env : Env) (s : Locked σ) : Prop := ∃ w, Mirrors env s w ∧ w.Steady

/-- A lock-level step keeps the state sound. -/
theorem step_sound {e : LockEvent σ} (h : s.Sound env) (he : e.Lawful)
    (hs : s.step env e = .ok s') : s'.Sound env := by
  obtain ⟨w, hm, hw⟩ := h
  obtain ⟨w', hrun, hm'⟩ := mirrors_step hm hs
  have hlawful : ∀ e' ∈ s.commits e, e'.Lawful := by
    intro e' he'
    cases e with
    | reconfigure e =>
        obtain rfl : e' = e := by simpa [commits] using he'
        exact he
    | release =>
        simp only [commits] at he'
        split at he' <;> simp_all [Event.Lawful]
    | tryWrite d =>
        simp only [commits] at he'
        split at he' <;> simp_all [Event.Lawful]
    | _ => simp_all [commits, Event.Lawful]
  exact ⟨w', hm', run_invariant_along (C := fun _ e => e.Lawful)
    (fun _ _ _ hw he hs => World.step_steady hw he hs) hw (along_of_forall hlawful) hrun⟩

/-- A step inside or into a lock is no reconfiguration. -/
theorem lawful_of_onLocks {e : LockEvent σ} (he : e.onLocks = true) : e.Lawful := by
  cases e with
  | reconfigure => cases he
  | _ => trivial

/-- **Any schedule of the tasks inside and before the locks gets them all through.** From every
state reached, every run of their steps has at most `work` steps, none of them panics, whatever
`pick` draws, and a run that cannot go on has left every task outside the locks; so some run of them
does. -/
theorem locks_drain {es : List (LockEvent σ)} (hw : w.Steady) (hes : ∀ e ∈ es, e.Lawful)
    (hrun : run (step env) (quiet w) es = .ok s) :
    (∀ fs s', (∀ e ∈ fs, e.onLocks = true) → run (step env) s fs = .ok s' →
      fs.length ≤ s.work ∧ (∀ e p, e.onLocks = true → s'.step env e ≠ .error (.panic p)) ∧
        (s'.Idle ∨ ∃ e, e.onLocks = true ∧ ∃ s'', s'.step env e = .ok s'')) ∧
    ∃ fs s', (∀ e ∈ fs, e.onLocks = true) ∧ run (step env) s fs = .ok s' ∧ s'.Idle := by
  have hsound : s.Sound env := run_invariant_along (C := fun _ e => e.Lawful)
    (fun _ _ _ h he hs => step_sound h he hs) ⟨w, mirrors_quiet w, hw⟩ (along_of_forall hes) hrun
  have hstep : ∀ (s : Locked σ) e s', s.Sound env → e.onLocks = true → s.step env e = .ok s' →
      s'.Sound env ∧ s'.work < s.work := by
    rintro s e s' ⟨w, hm, hw⟩ he hs
    exact ⟨step_sound ⟨w, hm, hw⟩ (lawful_of_onLocks he) hs, work_step hm he hs⟩
  have hnext : ∀ s : Locked σ, s.Sound env → ¬ s.Idle →
      ∃ e, e.onLocks = true ∧ ∃ s', s.step env e = .ok s' := by
    rintro s ⟨w, hm, hw⟩ hidle
    exact exists_lock_step hm hw hidle
  refine ⟨fun fs s' hfs hrun' => ?_, ?_⟩
  · have hsound' := run_invariant_along (C := fun _ e => e.onLocks = true)
      (fun _ _ _ h he hs => (hstep _ _ _ h he hs).1) hsound (along_of_forall hfs) hrun'
    have hlen := run_length_le hstep hsound hfs hrun'
    refine ⟨by omega, fun e p he => ?_, or_iff_not_imp_left.mpr (hnext s' hsound')⟩
    obtain ⟨w', hm', hw'⟩ := hsound'
    exact lock_step_ne_panic hm' hw' he p
  · exact exists_settling_run hstep (fun s h hidle => by
      obtain ⟨e, he, s', hs⟩ := hnext s h hidle
      exact ⟨e, s', he, hs⟩) hsound

end Progress

/-- The second call of `crossing` has counted half of its dial when the other one still waits. -/
theorem locks_drain_crossing :
    ∃ s fs s', run (step Env.plain) (quiet (World.ofSize 2 (.roundRobin ⟨0⟩)))
        (crossing.take 8) = .ok s ∧
      s.calls.length = 1 ∧ s.writer.isSome = true ∧
      run (step Env.plain) s fs = .ok s' ∧ s'.Idle := by
  have hends : ends (step Env.plain)
      (fun s => decide (s.calls.length = 1 ∧ s.writer.isSome = true))
      (quiet (World.ofSize 2 (.roundRobin ⟨0⟩))) (crossing.take 8) = true := by decide
  obtain ⟨s, hrun, hs⟩ := exists_run_of_ends hends
  obtain ⟨hcalls, hwriter⟩ := of_decide_eq_true hs
  obtain ⟨-, fs, s', -, hfs, hidle⟩ := locks_drain (World.initial_steady
    (World.initial_ofSize Nat.two_pos _) trivial) (by simp [crossing, LockEvent.Lawful]) hrun
  exact ⟨s, fs, s', hrun, hcalls, hwriter, hfs, hidle⟩

end Locked

end RotaLb
