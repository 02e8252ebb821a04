import Mathlib.Data.List.Forall2
import RotaLb.AddressGrammar
import RotaLb.Discovery

/-!
# What Consul Discovery Lists

`ConsulDiscovery::discover` turns the entries of a catalog into descriptors. It is meant to list
what a balancer can dial: entries with a tag, if one is asked for, and with an address that
`validate_dial_addr` accepts. `wanted` states this on its own; the code is `passes` and
`descriptor`.

The code lists every wanted entry, in the order of the catalog, and more than these: a tag filter
lets entries without a tag list pass, and of the ports only 0 is refused.

## Main results

* `forall₂_filter_filterMap`: when a partial map over a list yields exactly the elements of a
  filter.
* `CatalogEntry.isSome_listing_iff`: the entries that are listed.
* `CatalogEntry.consul_lists_iff`: **the list is the wanted one, with acceptable addresses,
  exactly when no entry takes one of the two ways past the checks.**
-/

namespace RotaLb

/-- A partial map over a list that yields something for each element of a filter yields these and
nothing else exactly when it is defined on no other element. -/
theorem forall₂_filter_filterMap {α β : Type*} {R : α → β → Prop} {p : α → Bool}
    {g : α → Option β} (hR : ∀ a b, g a = some b → R a b)
    (hp : ∀ a, p a = true → (g a).isSome = true) (l : List α) :
    List.Forall₂ R (l.filter p) (l.filterMap g) ↔ ∀ a ∈ l, (g a).isSome = true → p a = true := by
  induction l with
  | nil => simp
  | cons a l ih =>
      rw [List.forall_mem_cons, ← ih]
      cases hg : g a with
      | none =>
          have hpa : ¬ p a = true := fun hpa => by simpa [hg] using hp a hpa
          rw [List.filter_cons_of_neg hpa, List.filterMap_cons_none hg]
          simp
      | some b =>
          rw [List.filterMap_cons_some hg]
          by_cases hpa : p a = true
          · rw [List.filter_cons_of_pos hpa, List.forall₂_cons]
            simp [hR a b hg, hpa]
          · -- there is one element too many
            rw [List.filter_cons_of_neg hpa]
            refine iff_of_false (fun h => ?_) (by simp [hpa])
            have hlen := h.length_eq
            have hle : l.countP p ≤ l.countP (fun a => (g a).isSome) :=
              List.countP_mono_left fun a _ => hp a
            rw [← List.countP_eq_length_filter, List.length_cons,
              List.length_filterMap_eq_countP] at hlen
            omega

namespace CatalogEntry

variable {entry : CatalogEntry} {tagFilter : Option String} {d : BackendDescriptor}

/-! ### What should be listed -/

/-- A balancer can dial the entry: it has a non-empty address and a port from 1 to 65535. -/
def usable (entry : CatalogEntry) : Bool :=
  match entry.serviceAddress, entry.servicePort with
  | some address, some port => address ≠ "" && 1 ≤ port && port ≤ 65535
  | _, _ => false

/-- If there is a filter, its tag is in the tag list of the entry. -/
def tagged (tagFilter : Option String) (entry : CatalogEntry) : Bool :=
  match tagFilter with
  | none => true
  | some tag => entry.serviceTags.any (·.contains tag)

/-- The entry should be listed. -/
def wanted (tagFilter : Option String) (entry : CatalogEntry) : Bool :=
  entry.usable && entry.tagged tagFilter

/-- The descriptor is the one of the entry. -/
structure Describes (entry : CatalogEntry) (d : BackendDescriptor) : Prop where
  id : d.id = entry.serviceId.getD ""
  addr : ∃ address port, entry.serviceAddress = some address ∧ entry.servicePort = some port ∧
    d.addr = s!"{address}:{port}"

/-! ### What is listed -/

/-- The round of the loop for one entry. -/
def listing (tagFilter : Option String) (entry : CatalogEntry) : Option BackendDescriptor :=
  if entry.passes tagFilter then entry.descriptor else none

theorem consulDiscover_ok (tagFilter : Option String) (entries : List CatalogEntry) :
    consulDiscover tagFilter (.ok entries) = .ok (entries.filterMap (listing tagFilter)) := by
  have hloop : (entries.filter (·.passes tagFilter)).filterMap descriptor =
      entries.filterMap (listing tagFilter) := by
    rw [List.filterMap_filter]
    rfl
  rw [← hloop]
  rfl

/-- **The entries that are listed**: neither their tags nor their port are checked in full. -/
theorem isSome_listing_iff :
    (listing tagFilter entry).isSome = true ↔ ∃ address port,
      entry.serviceAddress = some address ∧ entry.servicePort = some port ∧ address ≠ "" ∧
        port ≠ 0 ∧ entry.passes tagFilter = true := by
  rw [listing, descriptor]
  split
  · rename_i hpass
    split
    · rename_i address port haddress hport
      split
      · rename_i hskip
        simp only [haddress, hport, Option.some.injEq, Option.isSome_none, Bool.false_eq_true,
          false_iff]
        rintro ⟨_, _, rfl, rfl, haddr, hport', -⟩
        exact hskip.elim haddr hport'
      · rename_i hkeep
        obtain ⟨haddr, hport'⟩ := not_or.mp hkeep
        exact iff_of_true rfl ⟨address, port, haddress, hport, haddr, hport', hpass⟩
    · rename_i hmissing
      refine iff_of_false (by simp) ?_
      rintro ⟨address, port, haddress, hport, -⟩
      exact hmissing address port haddress hport
  · rename_i hpass
    simp [hpass]

/-- A descriptor is the one of its entry. -/
theorem describes_of_listing (h : listing tagFilter entry = some d) : entry.Describes d := by
  rw [listing, descriptor] at h
  split at h
  · split at h
    · rename_i address port haddress hport
      split at h
      · cases h
      · cases h
        exact ⟨rfl, address, port, haddress, hport, rfl⟩
    · cases h
  · cases h

/-- A usable entry in its parts. -/
theorem usable_iff : entry.usable = true ↔ ∃ address port, entry.serviceAddress = some address ∧
    entry.servicePort = some port ∧ address ≠ "" ∧ 1 ≤ port ∧ port ≤ 65535 := by
  rw [usable]
  split
  · rename_i address port haddress hport
    simp [haddress, hport, and_assoc]
  · rename_i hmissing
    refine iff_of_false (by simp) ?_
    rintro ⟨address, port, haddress, hport, -⟩
    exact hmissing address port haddress hport

/-- The filter of the code lets pass what has the tag, and what has no tag list. -/
theorem tagged_iff : entry.tagged tagFilter = true ↔
    entry.passes tagFilter = true ∧ (tagFilter ≠ none → entry.serviceTags ≠ none) := by
  unfold tagged passes
  cases tagFilter with
  | none => simp
  | some tag =>
      cases entry.serviceTags with
      | none => simp
      | some tags => simp

theorem wanted_iff : entry.wanted tagFilter = true ↔ entry.usable = true ∧
    entry.passes tagFilter = true ∧ (tagFilter ≠ none → entry.serviceTags ≠ none) := by
  rw [wanted, Bool.and_eq_true, tagged_iff]

/-- Every wanted entry is listed. -/
theorem isSome_listing_of_wanted (h : entry.wanted tagFilter = true) :
    (listing tagFilter entry).isSome = true := by
  obtain ⟨husable, hpass, -⟩ := wanted_iff.mp h
  obtain ⟨address, port, haddress, hport, haddr, hpos, -⟩ := usable_iff.mp husable
  exact isSome_listing_iff.mpr ⟨address, port, haddress, hport, haddr, by omega, hpass⟩

/-- The address of a usable entry is accepted. -/
theorem validateDialAddr_of_usable (h : entry.usable = true) (hd : entry.Describes d) :
    validateDialAddr d.addr = .ok () := by
  obtain ⟨address, port, haddress, hport, haddr, hpos, hle⟩ := usable_iff.mp h
  obtain ⟨address', port', haddress', hport', hd⟩ := hd.addr
  cases haddress.symm.trans haddress'
  cases hport.symm.trans hport'
  obtain ⟨n, rfl⟩ := Int.eq_ofNat_of_zero_le (by omega : 0 ≤ port)
  rw [hd]
  exact validateDialAddr_format_iff.mpr ⟨haddr, by omega, by omega⟩

/-- The entry takes neither way past the checks: if it has an address and a port other than 0 and
its tags, if any, pass the filter, its port is at most 65535 and positive, and it has a tag list
when there is a filter. -/
def Checked (tagFilter : Option String) (entry : CatalogEntry) : Prop :=
  ∀ address port, entry.serviceAddress = some address → entry.servicePort = some port →
    address ≠ "" → port ≠ 0 → entry.passes tagFilter = true →
    (1 ≤ port ∧ port ≤ 65535) ∧ (tagFilter ≠ none → entry.serviceTags ≠ none)

/-- Then it is listed only if it is wanted. -/
theorem checked_iff : entry.Checked tagFilter ↔
    ((listing tagFilter entry).isSome = true → entry.wanted tagFilter = true) := by
  rw [isSome_listing_iff, wanted_iff, usable_iff]
  constructor
  · rintro h ⟨address, port, haddress, hport, haddr, hne, hpass⟩
    obtain ⟨⟨hpos, hle⟩, htags⟩ := h address port haddress hport haddr hne hpass
    exact ⟨⟨address, port, haddress, hport, haddr, hpos, hle⟩, hpass, htags⟩
  · intro h address port haddress hport haddr hne hpass
    obtain ⟨⟨address', port', haddress', hport', -, hpos, hle⟩, -, htags⟩ :=
      h ⟨address, port, haddress, hport, haddr, hne, hpass⟩
    cases hport.symm.trans hport'
    exact ⟨⟨hpos, hle⟩, htags⟩

/-- **What Consul discovery lists.** For every tag filter and every answer of the catalog the
descriptors are those of the wanted entries, one for each and in their order, and all their
addresses are accepted by `validate_dial_addr`, if and only if no entry takes one of the two ways
past the checks. -/
theorem consul_lists_iff (tagFilter : Option String) (entries : List CatalogEntry) :
    ∃ ds, consulDiscover tagFilter (.ok entries) = .ok ds ∧
      ((List.Forall₂ Describes (entries.filter (wanted tagFilter)) ds ∧
          ∀ d ∈ ds, validateDialAddr d.addr = .ok ()) ↔
        ∀ entry ∈ entries, entry.Checked tagFilter) := by
  refine ⟨_, consulDiscover_ok tagFilter entries, ?_⟩
  rw [forall₂_filter_filterMap (fun _ _ => describes_of_listing) fun _ => isSome_listing_of_wanted]
  simp only [checked_iff]
  refine ⟨And.left, fun h => ⟨h, fun d hd => ?_⟩⟩
  obtain ⟨entry, hentry, hlisting⟩ := List.mem_filterMap.mp hd
  have hwanted := h entry hentry (by rw [hlisting]; rfl)
  exact validateDialAddr_of_usable (wanted_iff.mp hwanted).1 (describes_of_listing hlisting)

/-- Two entries with the tag, one of them without an address, and one with another tag. -/
def production : List CatalogEntry :=
  [{ serviceId := some "a", serviceAddress := some "10.0.0.1", servicePort := some 80,
     serviceTags := some ["prod", "v2"] },
    { serviceId := some "b", servicePort := some 80, serviceTags := some ["prod"] },
    { serviceId := some "c", serviceAddress := some "::1", servicePort := some 8080,
      serviceTags := some ["test"] }]

/-- The first one is listed. -/
theorem consul_lists_production :
    ∃ ds, consulDiscover (some "prod") (.ok production) = .ok ds ∧
      ds.map BackendDescriptor.addr = ["10.0.0.1:80"] ∧
      ∀ d ∈ ds, validateDialAddr d.addr = .ok () := by
  obtain ⟨ds, hds, hiff⟩ := consul_lists_iff (some "prod") production
  have hchecked : ∀ entry ∈ production, entry.Checked (some "prod") := by
    simp [production, Checked, passes]
  refine ⟨ds, hds, ?_, (hiff.mpr hchecked).2⟩
  cases hds
  decide

/-- An entry without tags, and one with a port beyond 65535. -/
def untagged : CatalogEntry :=
  { serviceId := some "d", serviceAddress := some "10.0.0.2", servicePort := some 80 }

def beyond : CatalogEntry :=
  { serviceId := some "e", serviceAddress := some "10.0.0.3", servicePort := some 70000 }

/-- Neither is wanted, the first one under a filter and the second one under none; both are
listed, and the address of the second one is refused at every dial. -/
theorem unwanted_entries_listed :
    (untagged.wanted (some "prod") = false ∧
      ∃ d, consulDiscover (some "prod") (.ok [untagged]) = .ok [d] ∧ d.addr = "10.0.0.2:80") ∧
    beyond.wanted none = false ∧
      ∃ d, consulDiscover none (.ok [beyond]) = .ok [d] ∧ d.addr = "10.0.0.3:70000" ∧
        validateDialAddr d.addr =
          .error (.invalidAddress "10.0.0.3:70000" "port must be 1-65535") :=
  ⟨⟨by decide, _, rfl, by decide⟩, by decide, _, rfl, by decide, by decide⟩

end CatalogEntry

end RotaLb
