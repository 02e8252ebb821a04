import RotaLb.World

/-!
# Service Discovery

`Discover` polls a service registry and brings the pool of a balancer in line with the
descriptors it returns. One tick of its loop asks the registry; on success it takes the lock of
the balancer and reconciles: the ids are copied, the backends whose id is no longer listed are
removed by id, and a backend is created for each descriptor whose id is not among the copied
ids. The first error of the factory ends the reconciliation; what was done until then stays.

The lock is held by every dial of `Discover::dial` and by the whole reconciliation, so a
reconciliation finds no dial in progress and is one step here; between two ticks anything may
happen to the balancer.

Beside the program's state a `Discover` remembers from which descriptor the factory made each
backend (`origin`), which no operation reads.
-/

namespace RotaLb

open Rust

/-- `BackendDescriptor`. The metadata is a finite map, represented by its lookup. -/
structure BackendDescriptor where
  id : String
  addr : String
  metadata : String → Option String := fun _ => none
  weight : Option UInt32 := none
  healthCheck : Option String := none

/-- `BackendDescriptor::new`. -/
def BackendDescriptor.new (id addr : String) : BackendDescriptor := { id, addr }

/-- `BackendFactoryFromDescriptor`: what the `n`-th call of `create` returns, with the address of
the new backend. -/
abbrev DescriptorFactory := (n : ℕ) → BackendDescriptor → Except Error ℕ

/-! ### Consul -/

/-- What `ConsulDiscovery` reads of an entry of the catalog. -/
structure CatalogEntry where
  serviceId : Option String := none
  serviceAddress : Option String := none
  servicePort : Option ℤ := none
  serviceMeta : Option (String → Option String) := none
  serviceTags : Option (List String) := none

/-- The tag filter lets an entry without tags pass. -/
def CatalogEntry.passes (entry : CatalogEntry) (tagFilter : Option String) : Bool :=
  match tagFilter, entry.serviceTags with
  | some tag, some tags => tags.contains tag
  | _, _ => true

/-- The descriptor of one entry; entries without an address or a port are skipped. -/
def CatalogEntry.descriptor (entry : CatalogEntry) : Option BackendDescriptor :=
  match entry.serviceAddress, entry.servicePort with
  | some address, some port =>
    if address = "" ∨ port = 0 then none
    else
      let copied := entry.serviceMeta.getD fun _ => none
      some {
        id := entry.serviceId.getD ""
        addr := s!"{address}:{port}"
        metadata := match entry.serviceTags with
          | some tags => fun key => if key = "tags" then some (",".intercalate tags) else copied key
          | none => copied
        weight := some 1 }
  | _, _ => none

/-- `ConsulDiscovery::discover`, on the answer of the catalog. -/
def consulDiscover (tagFilter : Option String) (response : Except Error (List CatalogEntry)) :
    Except Error (List BackendDescriptor) := do
  let entries ← response
  return (entries.filter (·.passes tagFilter)).filterMap CatalogEntry.descriptor

/-! ### Reconciliation -/

/-- What a reconciliation leaves behind: the balancer, what it returned, the descriptors it
called the factory with, and the backends it added, by tag, with their descriptors. -/
structure Reconciled (σ : Type) where
  world : World σ
  result : Except Error Unit
  asked : List BackendDescriptor
  created : List (ℕ × BackendDescriptor)

namespace World

variable {σ : Type} [BalanceStrategy σ]

/-- The removing loop, over the ids copied at the start. -/
def removeMissing (env : Env) (discovered : List String) :
    List String → World σ → Except Fault (World σ)
  | [], w => .ok w
  | id :: ids, w => do
    let w ← if id ∈ discovered then .ok w else w.step env (.removeBackendById id)
    removeMissing env discovered ids w

/-- The adding loop. A descriptor is new if its id is not among the ids copied at the start. -/
def addMissing (env : Env) (current : List (Option String)) (create : DescriptorFactory) :
    List BackendDescriptor → ℕ → World σ → Except Fault (Reconciled σ)
  | [], _, w => .ok ⟨w, .ok (), [], []⟩
  | d :: ds, n, w =>
    if some d.id ∈ current then addMissing env current create ds n w
    else
      match create n d with
      | .error e => .ok ⟨w, .error e, [d], []⟩
      | .ok ptr => do
        let w' ← w.step env (.addBackendWithId d.id ptr)
        let r ← addMissing env current create ds (n + 1) w'
        return { r with asked := d :: r.asked, created := (w.fresh, d) :: r.created }

/-- `Discover::reconcile`. -/
def reconcile (env : Env) (w : World σ) (descriptors : List BackendDescriptor)
    (create : DescriptorFactory) : Except Fault (Reconciled σ) := do
  let currentIds := w.lb.ids
  let discoveredIds := descriptors.map BackendDescriptor.id
  let w ← w.removeMissing env discoveredIds currentIds.reduceOption
  w.addMissing env currentIds create descriptors 0

end World

/-! ### The loop -/

/-- A `Discover` around its balancer. -/
structure Discover (σ : Type) where
  world : World σ
  origin : ℕ → Option BackendDescriptor

/-- What happens next: something to the balancer, or a tick of the loop. -/
inductive DiscoverEvent (σ : Type)
  | balancer (e : Event σ)
  | tick (found : Except Error (List BackendDescriptor)) (create : DescriptorFactory)

namespace Discover

variable {σ : Type} [BalanceStrategy σ]

/-- After a reconciliation the backends it added have their descriptors. -/
def reconciled (s : Discover σ) (r : Reconciled σ) : Discover σ where
  world := r.world
  origin t := (r.created.lookup t).or (s.origin t)

/-- One event. A failed `discover` is logged and changes nothing, and so is the error of a
reconciliation. -/
def step (env : Env) (s : Discover σ) : DiscoverEvent σ → Except Fault (Discover σ)
  | .balancer e => do
    let world ← s.world.step env e
    return { s with world }
  | .tick (.error _) _ => .ok s
  | .tick (.ok descriptors) create =>
    if s.world.dials.isEmpty then do
      return s.reconciled (← s.world.reconcile env descriptors create)
    else .error .disabled

end Discover

end RotaLb
