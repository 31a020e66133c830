import Mathlib.Data.List.Find
import MotifQuery.Proofs.Host.Registry
import MotifQuery.Proofs.Repeats

/-!
# `MotifQuery.Proofs.Host.Dispatch`: a router after its registrations

A router is looked at after a list of registrations, each an id with its provider.

* `Router.ids_ofRegistrations`: the ids stand in the order of first registration.
* `Router.get?_ofRegistrations`: an id has the provider that it was last registered with.
* `Router.Distinct.providerId?_eq`, `Router.Distinct.provider?_eq`: a scan of the entries finds
  what a scan of the ids finds, when each id is asked for its provider.

`Router.dispatches_ofRegistrations` puts this together: a URI goes to the current provider of the
first id whose current provider accepts it.
-/

set_option autoImplicit false

namespace MotifQuery

namespace Router

variable {π : Type}

/-- The router after a list of registrations. -/
def ofRegistrations (calls : List (String × π)) : Router π :=
  calls.foldl (fun r call => r.add call.1 call.2) empty

/-- The provider of the last registration of an id. -/
def lastRegistered (calls : List (String × π)) (id : String) : Option π :=
  (calls.reverse.find? fun call => call.1 == id).map (·.2)

/-! ### One registration -/

/-- A new id comes last, and an old one keeps its place. -/
theorem ids_add (r : Router π) (id : String) (p : π) :
    (r.add id p).ids = if id ∈ r.ids then r.ids else r.ids ++ [id] :=
  map_fst_replace id p r.entries

/-- A registration changes the provider of its own id only. -/
theorem get?_add (r : Router π) (id other : String) (p : π) :
    (r.add id p).get? other = if id = other then some p else r.get? other := by
  show ((replace id p r.entries).find? fun entry => entry.1 == other).map (·.2) = _
  rw [find?_replace]
  split <;> rfl

/-! ### Many registrations -/

theorem ofRegistrations_concat (calls : List (String × π)) (call : String × π) :
    ofRegistrations (calls ++ [call]) = (ofRegistrations calls).add call.1 call.2 :=
  List.foldl_concat _ _ _ _

theorem distinct_ofRegistrations (calls : List (String × π)) :
    (ofRegistrations calls).Distinct := by
  induction calls using List.reverseRecOn with
  | nil => exact distinct_empty
  | append_singleton rest call ih =>
    rw [ofRegistrations_concat]
    exact ih.add call.1 call.2

/-- The ids stand in the order of first registration. -/
theorem ids_ofRegistrations (calls : List (String × π)) :
    (ofRegistrations calls).ids = (calls.map (·.1)).eraseDups := by
  induction calls using List.reverseRecOn with
  | nil => rfl
  | append_singleton rest call ih =>
    rw [ofRegistrations_concat, ids_add, ih, List.map_append, ← foldl_mention_eq_eraseDups]
    rfl

/-- An id has the provider that it was last registered with. -/
theorem get?_ofRegistrations (calls : List (String × π)) (id : String) :
    (ofRegistrations calls).get? id = lastRegistered calls id := by
  induction calls using List.reverseRecOn with
  | nil => rfl
  | append_singleton rest call ih =>
    rw [ofRegistrations_concat, get?_add, ih, lastRegistered, lastRegistered, List.reverse_concat,
      List.find?_cons]
    by_cases hid : call.1 = id
    · rw [if_pos hid, beq_iff_eq.2 hid]
      rfl
    · rw [if_neg hid, beq_eq_false_iff_ne.2 hid]

/-! ### Scans -/

namespace Distinct

variable {r : Router π}

/-- Where no id repeats, every entry is found under its id. -/
theorem get?_of_mem (h : r.Distinct) {entry : String × π} (hentry : entry ∈ r.entries) :
    r.get? entry.1 = some entry.2 := by
  rw [get?, find?_of_nodup_map h hentry]
  rfl

/-- The id of the first provider that accepts is the first id whose provider accepts. -/
theorem providerId?_eq (h : r.Distinct) (accepts : π → Bool) :
    r.providerId? accepts = r.ids.find? fun id => (r.get? id).any accepts := by
  rw [ids, List.find?_map, providerId?]
  congr 1
  refine List.find?_congr fun entry hentry => ?_
  rw [Function.comp_apply, h.get?_of_mem hentry]
  rfl

/-- Both scans stop at the same entry. -/
theorem bind_providerId? (h : r.Distinct) (accepts : π → Bool) :
    (r.providerId? accepts).bind r.get? = r.provider? accepts := by
  unfold providerId? provider?
  cases hentry : r.entries.find? fun entry => accepts entry.2 with
  | none => rfl
  | some entry => exact h.get?_of_mem (List.mem_of_find?_eq_some hentry)

/-- The first provider that accepts is that of the first id whose provider accepts. -/
theorem provider?_eq (h : r.Distinct) (accepts : π → Bool) :
    r.provider? accepts = (r.ids.find? fun id => (r.get? id).any accepts).bind r.get? := by
  rw [← h.bind_providerId? accepts, h.providerId?_eq]

/-- What is found under the ids of a router is what its entries hold. -/
theorem exists_entry_iff (h : r.Distinct) {accepts : π → Bool} :
    (∃ entry ∈ r.entries, accepts entry.2 = true)
      ↔ ∃ id p, r.get? id = some p ∧ accepts p = true := by
  constructor
  · rintro ⟨entry, hentry, haccepts⟩
    exact ⟨entry.1, entry.2, h.get?_of_mem hentry, haccepts⟩
  · rintro ⟨id, p, hp, haccepts⟩
    obtain ⟨entry, hentry, rfl⟩ := Option.map_eq_some_iff.1 hp
    exact ⟨entry, List.mem_of_find?_eq_some hentry, haccepts⟩

end Distinct

/-- A provider is found when some entry has one that accepts. -/
theorem isSome_provider?_iff {r : Router π} {accepts : π → Bool} :
    (r.provider? accepts).isSome ↔ ∃ entry ∈ r.entries, accepts entry.2 = true := by
  rw [provider?, Option.isSome_map, List.find?_isSome]

/-- Both scans find the entry that a URI is routed to. -/
theorem route?_eq_some_iff {r : Router π} {accepts : π → Bool} {id : String} {p : π} :
    r.route? accepts = some (id, p)
      ↔ r.providerId? accepts = some id ∧ r.provider? accepts = some p := by
  unfold route? providerId? provider?
  cases r.entries.find? fun entry => accepts entry.2 with
  | none => simp
  | some entry => simp [Prod.ext_iff]

/-! ### Dispatch -/

/-- A router sends URIs where the history of its registrations says. -/
structure Dispatches (r : Router π) (calls : List (String × π)) : Prop where
  ids_nodup : r.ids.Nodup
  /-- The ids stand in the order of first registration. -/
  ids_order : r.ids = (calls.map (·.1)).eraseDups
  /-- An id has the provider that it was last registered with. -/
  get?_eq : ∀ id, r.get? id = lastRegistered calls id
  /-- A URI goes to the first id whose current provider accepts it. -/
  providerId?_eq : ∀ (accepts : String → π → Bool) (uri : String),
    r.providerId? (accepts uri) = r.ids.find? fun id => (lastRegistered calls id).any (accepts uri)
  /-- It is served by the current provider of that id. -/
  provider?_eq : ∀ (accepts : String → π → Bool) (uri : String),
    r.provider? (accepts uri)
      = (r.ids.find? fun id => (lastRegistered calls id).any (accepts uri)).bind
        (lastRegistered calls)
  /-- Both are what a service routes the URI to. -/
  route?_iff : ∀ (accepts : String → π → Bool) (uri id : String) (p : π),
    r.route? (accepts uri) = some (id, p) ↔
      r.providerId? (accepts uri) = some id ∧ r.provider? (accepts uri) = some p
  /-- No provider serves a URI exactly when no current one accepts it. -/
  provider?_eq_none_iff : ∀ (accepts : String → π → Bool) (uri : String),
    r.provider? (accepts uri) = none
      ↔ ∀ id p, lastRegistered calls id = some p → accepts uri p = false
  /-- The provider of the id that is named is the one that serves. -/
  get?_providerId? : ∀ (accepts : String → π → Bool) (uri : String),
    (r.providerId? (accepts uri)).bind r.get? = r.provider? (accepts uri)
  /-- Hosts are judged in their order by whether a provider serves their URI. -/
  validate_eq : ∀ (accepts : String → π → Bool) (hosts : List HostListing),
    r.validate accepts hosts = hosts.map fun h => (r.provider? (accepts h.uri)).isSome

/-- After any list of registrations the router dispatches by the first id, in the order of first
registration, whose last registered provider accepts. -/
theorem dispatches_ofRegistrations (calls : List (String × π)) :
    (ofRegistrations calls).Dispatches calls := by
  have hdistinct := distinct_ofRegistrations calls
  have hget : (ofRegistrations calls).get? = lastRegistered calls :=
    funext (get?_ofRegistrations calls)
  exact {
    ids_nodup := hdistinct
    ids_order := ids_ofRegistrations calls
    get?_eq := get?_ofRegistrations calls
    providerId?_eq := fun accepts uri => by rw [hdistinct.providerId?_eq, hget]
    provider?_eq := fun accepts uri => by rw [hdistinct.provider?_eq, hget]
    route?_iff := fun accepts uri id p => route?_eq_some_iff
    provider?_eq_none_iff := fun accepts uri => by
      rw [← Option.not_isSome_iff_eq_none, isSome_provider?_iff, hdistinct.exists_entry_iff, hget]
      simp
    get?_providerId? := fun accepts uri => hdistinct.bind_providerId? (accepts uri)
    validate_eq := fun accepts hosts => rfl }

/-- A provider that is registered again keeps the place of its id, and so comes before one that was
registered in between. -/
example : (ofRegistrations [("a", 1), ("b", 2), ("a", 3)]).provider? (· > 1) = some 3 := by decide

end Router

end MotifQuery
