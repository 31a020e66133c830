import Mathlib.Data.List.Nodup
import MotifQuery.Host.Registry
import MotifQuery.Host.Router

/-!
# `MotifQuery.Proofs.Host.Registry`: finding hosts and providers

Registering a provider puts it where the provider with its id stood: the ids of a router
keep their order and never repeat. Unlisted hosts are registered in the same way under their own
ids. So registering a host changes what is found under its id only, and public hosts stay as they
are.
-/

set_option autoImplicit false

namespace MotifQuery

/-- Where no id repeats, an element is found under its own. -/
theorem find?_of_nodup_map {α : Type} {id : α → String} {xs : List α} (h : (xs.map id).Nodup)
    {x : α} (hx : x ∈ xs) : xs.find? (fun y => id y == id x) = some x := by
  induction xs with
  | nil => cases hx
  | cons first rest ih =>
    obtain ⟨hfirst, hrest⟩ := List.nodup_cons.1 h
    rw [List.find?_cons]
    split
    · next heq =>
      rcases List.mem_cons.1 hx with rfl | hx
      · rfl
      · exact absurd (List.mem_map.2 ⟨x, hx, (beq_iff_eq.1 heq).symm⟩) hfirst
    · next hne =>
      rcases List.mem_cons.1 hx with rfl | hx
      · rw [beq_self_eq_true] at hne
        cases hne
      · exact ih hrest hx

/-! ### Providers -/

namespace Router

variable {π : Type} {id : String} {p q : π} {front back entries : List (String × π)}

/-- A provider is registered where the one with its id stood. -/
theorem replace_append (hfront : ∀ entry ∈ front, entry.1 ≠ id) :
    replace id p (front ++ (id, q) :: back) = front ++ (id, p) :: back := by
  induction front with
  | nil => exact if_pos rfl
  | cons first front ih =>
    have hrest := ih fun entry hentry => hfront entry (List.mem_cons_of_mem _ hentry)
    rw [List.cons_append, replace, if_neg (hfront first List.mem_cons_self), hrest]
    rfl

theorem mem_replace {entry : String × π} (h : entry ∈ replace id p entries) :
    entry = (id, p) ∨ entry ∈ entries := by
  induction entries with
  | nil => exact .inl (List.mem_singleton.1 h)
  | cons first rest ih =>
    rw [replace] at h
    split at h
    · rcases List.mem_cons.1 h with h | h
      · exact .inl h
      · exact .inr (List.mem_cons_of_mem _ h)
    · rcases List.mem_cons.1 h with h | h
      · exact .inr (h ▸ List.mem_cons_self)
      · exact (ih h).imp_right (List.mem_cons_of_mem _)

/-- A new id comes last, and an old one keeps its place. -/
theorem map_fst_replace (id : String) (p : π) (entries : List (String × π)) :
    (replace id p entries).map (·.1)
      = if id ∈ entries.map (·.1) then entries.map (·.1) else entries.map (·.1) ++ [id] := by
  induction entries with
  | nil => rfl
  | cons first rest ih =>
    rw [replace]
    by_cases hid : first.1 = id
    · simp [hid]
    · simp only [if_neg hid, List.map_cons, ih, List.mem_cons, Ne.symm hid, false_or]
      split <;> rfl

/-- A registration changes what is found under its own id only. -/
theorem find?_replace (id other : String) (p : π) (entries : List (String × π)) :
    (replace id p entries).find? (fun entry => entry.1 == other)
      = if id = other then some (id, p) else entries.find? fun entry => entry.1 == other := by
  induction entries with
  | nil => by_cases hid : id = other <;> simp [replace, hid]
  | cons first rest ih =>
    rw [replace]
    by_cases hfirst : first.1 = id
    · rw [if_pos hfirst, List.find?_cons, List.find?_cons, hfirst]
      by_cases hid : id = other
      · rw [beq_iff_eq.2 hid, if_pos hid]
      · rw [beq_eq_false_iff_ne.2 hid, if_neg hid]
    · rw [if_neg hfirst, List.find?_cons, List.find?_cons, ih]
      by_cases hid : id = other
      · rw [if_pos hid, if_pos hid, beq_eq_false_iff_ne.2 fun h => hfirst (h.trans hid.symm)]
      · rw [if_neg hid, if_neg hid]

/-- The ids of a router do not repeat. -/
def Distinct (r : Router π) : Prop :=
  (r.entries.map (·.1)).Nodup

theorem distinct_empty : (empty : Router π).Distinct :=
  List.nodup_nil

theorem Distinct.add {r : Router π} (h : r.Distinct) (id : String) (p : π) :
    (r.add id p).Distinct := by
  show ((replace id p r.entries).map (·.1)).Nodup
  rw [map_fst_replace]
  split
  · exact h
  · next hnew =>
    rw [← List.concat_eq_append, List.nodup_concat]
    exact ⟨hnew, h⟩

/-- The router with other providers under the same ids. -/
def map (f : π → π) (r : Router π) : Router π :=
  ⟨r.entries.map fun entry => (entry.1, f entry.2)⟩

theorem map_add (f : π → π) (r : Router π) (id : String) (p : π) :
    (r.add id p).map f = (r.map f).add id (f p) := by
  suffices hentries : ∀ entries : List (String × π),
      (replace id p entries).map (fun entry => (entry.1, f entry.2))
        = replace id (f p) (entries.map fun entry => (entry.1, f entry.2)) from
    congrArg Router.mk (hentries r.entries)
  intro entries
  induction entries with
  | nil => rfl
  | cons first rest ih =>
    rw [replace, List.map_cons, replace]
    split
    · rfl
    · rw [List.map_cons, ih]

end Router

/-! ### Hosts -/

namespace HostListing

variable (new : HostListing) (hosts : List HostListing)

/-- Hosts under their ids. -/
def byId : List (String × HostListing) :=
  hosts.map fun h => (h.id, h)

/-- A host is registered under its id. -/
theorem byId_replaceIn : byId (new.replaceIn hosts) = Router.replace new.id new (byId hosts) := by
  induction hosts with
  | nil => rfl
  | cons first rest ih =>
    show byId (new.replaceIn (first :: rest)) = Router.replace new.id new (_ :: byId rest)
    rw [replaceIn, Router.replace, ← ih]
    split <;> rfl

theorem map_fst_byId : (byId hosts).map (·.1) = hosts.map (·.id) :=
  List.map_map

theorem find?_byId (id : String) :
    hosts.find? (fun h => h.id == id)
      = ((byId hosts).find? fun entry => entry.1 == id).map (·.2) := by
  rw [byId, List.find?_map, Option.map_map]
  exact Option.map_id'.symm

/-- A new id comes last, and an old one keeps its place. -/
theorem ids_replaceIn :
    (new.replaceIn hosts).map (·.id)
      = if new.id ∈ hosts.map (·.id) then hosts.map (·.id) else hosts.map (·.id) ++ [new.id] := by
  rw [← map_fst_byId, byId_replaceIn, Router.map_fst_replace, map_fst_byId]

theorem find?_replaceIn (id : String) :
    (new.replaceIn hosts).find? (fun h => h.id == id)
      = if new.id = id then some new else hosts.find? fun h => h.id == id := by
  rw [find?_byId, byId_replaceIn, Router.find?_replace, find?_byId]
  split <;> rfl

end HostListing

namespace HostRegistry

open HostListing (find?_replaceIn)

variable {r : HostRegistry} {new : HostListing} {id other : String}

@[simp]
theorem listed_add (r : HostRegistry) (new : HostListing) : (r.add new).listed = r.listed :=
  rfl

@[simp]
theorem listed_remove (r : HostRegistry) (id : String) : (r.remove id).listed = r.listed :=
  rfl

theorem listing?_eq_none_iff :
    r.listing? id = none ↔ r.listed.find? (fun h => h.id == id) = none ∧ r.unlisted? id = none := by
  rw [listing?, find?, Option.or_eq_none_iff]
  rfl

theorem unlisted?_add (r : HostRegistry) (new : HostListing) (id : String) :
    (r.add new).unlisted? id = if new.id = id then some new else r.unlisted? id :=
  find?_replaceIn new r.unlisted id

theorem unlisted?_remove (r : HostRegistry) (other id : String) :
    (r.remove other).unlisted? id = if other = id then none else r.unlisted? id := by
  rw [unlisted?, unlisted?, remove, List.find?_filter]
  split
  · next heq =>
    rw [List.find?_eq_none]
    intro h _
    simp [heq]
  · next hne =>
    congr 1
    funext h
    by_cases hid : h.id = id
    · simp [hid, Ne.symm hne]
    · simp [hid]

/-- What is registered under a new id is found there. -/
theorem listing?_add_self (h : r.listing? new.id = none) :
    (r.add new).listing? new.id = some new := by
  rw [listing?, find?, listed_add, (listing?_eq_none_iff.1 h).1, Option.none_or]
  exact (find?_replaceIn new r.unlisted new.id).trans (if_pos rfl)

/-- Registering a host changes nothing under other ids. -/
theorem listing?_add_of_ne (hne : new.id ≠ id) : (r.add new).listing? id = r.listing? id := by
  rw [listing?, listing?, find?, find?, listed_add]
  congr 1
  exact (find?_replaceIn new r.unlisted id).trans (if_neg hne)

/-- An unlisted host that is removed is not found. -/
theorem listing?_remove_self (h : r.listed.find? (fun host => host.id == id) = none) :
    (r.remove id).listing? id = none := by
  refine listing?_eq_none_iff.2 ⟨h, ?_⟩
  rw [unlisted?, remove, List.find?_filter]
  simp [List.find?_eq_none]

/-- Removing a host changes nothing under other ids. -/
theorem listing?_remove_of_ne (hne : other ≠ id) :
    (r.remove other).listing? id = r.listing? id := by
  rw [listing?, listing?, find?, find?, listed_remove]
  congr 1
  rw [remove, List.find?_filter]
  congr 1
  funext h
  by_cases hid : h.id = id
  · simp [hid, hne.symm]
  · simp [hid]

end HostRegistry

end MotifQuery
