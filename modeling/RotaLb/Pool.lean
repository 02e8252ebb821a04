import Mathlib.Data.List.Induction
import RotaLb.Keyed
import RotaLb.Metrics

/-!
# The Pool as a Ledger

What a load balancer's pool is, without vectors and indices: a sequence of members, each
one backend with the tag it was given when it entered, the id it was added with, the
metrics it was seeded with and the number of dials routed to it since. Members are
addressed by tag.

A pool is what a log says: `replay` rebuilds it from the entries recorded so far. The log
also records what happened to the connection counts (`decremented`, `leaked`) and to the
drain marks; those entries do not change who is in the pool.

`RotaLb.Slots` shows that the balancer's three vectors are the columns of the replayed
pool.
-/

namespace RotaLb

/-- Why the count of a connection was not given back to its backend. -/
inductive Cause
  /-- The guard was dropped after the pool's generation had changed. -/
  | stale
  /-- `try_write` found the lock taken. -/
  | contended
  /-- The guard's index was past the end of the metrics. -/
  | missed
  /-- The guard's decrement went to another backend. -/
  | misdirected
  /-- The dial was cancelled. -/
  | cancelled
  deriving DecidableEq

/-- One recorded event. -/
inductive Entry
  | entered (tag : ℕ) (id : Option String) (seed : TunnelMetrics)
  | left (tag : ℕ)
  | routed (tag : ℕ)
  | decremented (owner target : ℕ)
  | leaked (owner : ℕ) (cause : Cause)
  | drained (tag : ℕ)
  | undrained (tag : ℕ)
  deriving DecidableEq

/-- The entry is about who is in the pool and where dials go. -/
def Entry.onPool : Entry → Bool
  | .entered .. | .left _ | .routed _ => true
  | _ => false

/-- A backend in the pool. -/
structure Member where
  tag : ℕ
  id : Option String
  seed : TunnelMetrics
  /-- Dials routed to the backend since it entered. -/
  routed : ℕ
  deriving DecidableEq

/-- The entry a new member is recorded by. -/
def Member.entry (x : Member) : Entry := .entered x.tag x.id x.seed

/-- One more dial routed to the member. -/
def Member.routeOne (x : Member) : Member := { x with routed := x.routed + 1 }

@[simp] theorem Member.tag_routeOne (x : Member) : x.routeOne.tag = x.tag := rfl

@[simp] theorem Member.id_routeOne (x : Member) : x.routeOne.id = x.id := rfl

@[simp] theorem Member.seed_routeOne (x : Member) : x.routeOne.seed = x.seed := rfl

/-- A pool: members in order, no tag twice. -/
structure Pool where
  members : List Member
  nodup : (members.map Member.tag).Nodup

namespace Pool

def empty : Pool := ⟨[], List.nodup_nil⟩

/-- The tags of the members, in order. -/
def tags (p : Pool) : List ℕ := p.members.map Member.tag

/-- A new backend joins at the end. -/
def enter (p : Pool) (t : ℕ) (id : Option String) (seed : TunnelMetrics) : Pool :=
  if h : t ∈ p.tags then p
  else
    { members := p.members ++ [⟨t, id, seed, 0⟩]
      nodup := by
        rw [List.map_append, List.map_singleton]
        have := p.nodup.concat h
        rwa [List.concat_eq_append] at this }

/-- The backend with this tag leaves. -/
def leave (p : Pool) (t : ℕ) : Pool where
  members := p.members.filter fun x => x.tag ≠ t
  nodup := p.nodup.sublist (List.filter_sublist.map _)

/-- A dial is routed to the backend with this tag. -/
def route (p : Pool) (t : ℕ) : Pool where
  members := p.members.map fun x => if x.tag = t then x.routeOne else x
  nodup := by
    rw [List.map_map]
    convert p.nodup using 2
    funext x
    simp only [Function.comp_apply]
    split <;> rfl

/-- The pool after one more entry. -/
def apply (p : Pool) : Entry → Pool
  | .entered t id seed => p.enter t id seed
  | .left t => p.leave t
  | .routed t => p.route t
  | _ => p

/-- The pool a log describes. -/
def replay (log : List Entry) : Pool := log.foldl apply empty

/-- Replaying a longer log continues from the shorter one. -/
theorem replay_append (log es : List Entry) : replay (log ++ es) = es.foldl apply (replay log) :=
  List.foldl_append

/-- Replaying one more entry applies it. -/
theorem replay_concat (log : List Entry) (e : Entry) :
    replay (log ++ [e]) = (replay log).apply e :=
  replay_append log [e]

/-- Entries about counts or marks leave the pool as it is. -/
theorem replay_append_of_not_onPool {log es : List Entry} (h : ∀ e ∈ es, e.onPool = false) :
    replay (log ++ es) = replay log := by
  rw [replay_append]
  induction es with
  | nil => rfl
  | cons e es ih =>
      have he : (replay log).apply e = replay log := by
        cases e with
        | entered t id seed => exact absurd (h _ List.mem_cons_self) (by simp [Entry.onPool])
        | left t => exact absurd (h _ List.mem_cons_self) (by simp [Entry.onPool])
        | routed t => exact absurd (h _ List.mem_cons_self) (by simp [Entry.onPool])
        | _ => rfl
      rw [List.foldl_cons, he]
      exact ih fun e' he' => h e' (List.mem_cons_of_mem _ he')

/-- A new tag is appended. -/
theorem members_enter {p : Pool} {t : ℕ} (h : t ∉ p.tags) (id : Option String)
    (seed : TunnelMetrics) : (p.enter t id seed).members = p.members ++ [⟨t, id, seed, 0⟩] := by
  rw [enter, dif_neg h]

/-- The member at a position leaves: the others close up. -/
theorem members_leave {p : Pool} {i : ℕ} {x : Member} (h : p.members[i]? = some x) :
    (p.leave x.tag).members = p.members.eraseIdx i :=
  Keyed.filter_ne_eq_eraseIdx p.nodup h

/-- A dial routed to the member at a position. -/
theorem members_route {p : Pool} {i : ℕ} {x : Member} (h : p.members[i]? = some x) :
    (p.route x.tag).members = p.members.modify i Member.routeOne :=
  Keyed.map_ite_eq_modify p.nodup h Member.routeOne

/-- New members with new tags join at the end, in order. -/
theorem members_enter_all {p : Pool} {xs : List Member} (hnew : ∀ x ∈ xs, x.routed = 0)
    (hnd : (p.tags ++ xs.map Member.tag).Nodup) :
    ((xs.map Member.entry).foldl apply p).members = p.members ++ xs := by
  induction xs generalizing p with
  | nil => simp
  | cons x xs ih =>
      have hx : x.tag ∉ p.tags := fun hmem =>
        List.disjoint_of_nodup_append hnd hmem List.mem_cons_self
      have hzero : x.routed = 0 := hnew x List.mem_cons_self
      have hmem : (p.enter x.tag x.id x.seed).members = p.members ++ [x] := by
        rw [members_enter hx, ← hzero]
      rw [List.map_cons, List.foldl_cons, Member.entry, apply, ih, hmem, List.append_assoc]
      · rfl
      · exact fun y hy => hnew y (List.mem_cons_of_mem _ hy)
      · rw [tags, hmem, List.map_append, List.append_assoc]
        exact hnd

/-- A member entered with its seed. -/
theorem entered_of_mem {log : List Entry} {x : Member} (hx : x ∈ (replay log).members) :
    Entry.entered x.tag x.id x.seed ∈ log := by
  induction log using List.reverseRecOn generalizing x with
  | nil => exact absurd hx List.not_mem_nil
  | append_singleton log e ih =>
      rw [replay_concat] at hx
      have hold : ∀ {y}, y ∈ (replay log).members → .entered y.tag y.id y.seed ∈ log ++ [e] :=
        fun hy => List.mem_append_left _ (ih hy)
      cases e with
      | entered t id seed =>
          by_cases ht : t ∈ (replay log).tags
          · rw [apply, enter, dif_pos ht] at hx
            exact hold hx
          · rw [apply, members_enter ht] at hx
            rcases List.mem_append.mp hx with hx | hx
            · exact hold hx
            · obtain rfl := List.mem_singleton.mp hx
              exact List.mem_append_right _ List.mem_cons_self
      | left t => exact hold (List.mem_filter.mp hx).1
      | routed t =>
          obtain ⟨y, hy, rfl⟩ := List.mem_map.mp hx
          have hmem := hold hy
          split
          · exact hmem
          · exact hmem
      | _ => exact hold hx

/-- When every tag leaves, nobody is left. -/
theorem members_leave_all {p : Pool} {ts : List ℕ} (h : ∀ t ∈ p.tags, t ∈ ts) :
    ((ts.map Entry.left).foldl apply p).members = [] := by
  induction ts generalizing p with
  | nil =>
      rw [List.map_nil, List.foldl_nil]
      refine List.eq_nil_iff_forall_not_mem.mpr fun x hx => ?_
      exact List.not_mem_nil (h x.tag (List.mem_map_of_mem hx))
  | cons t ts ih =>
      rw [List.map_cons, List.foldl_cons]
      refine ih fun u hu => ?_
      obtain ⟨x, hx, rfl⟩ := List.mem_map.mp hu
      obtain ⟨hx, hne⟩ := List.mem_filter.mp hx
      rcases List.mem_cons.mp (h x.tag (List.mem_map_of_mem hx)) with rfl | hmem
      · exact absurd rfl (of_decide_eq_true hne)
      · exact hmem

end Pool

end RotaLb
