import Mathlib.Data.List.Induction
import MotifQuery.Proofs.Host.Registry

/-!
# `MotifQuery.Proofs.Host.Layers`: a registry after its calls

A registry is looked at after a list of calls, each of which adds or removes an unlisted host.

* `HostRegistry.unlisted?_ofCalls`: an id has the unlisted host that was last added under it and
  not removed since, `HostRegistry.standing`.
* `HostRegistry.ordered_ofCalls`: the unlisted hosts stand in the order of the calls that brought
  their ids in, `HostRegistry.EntersAt`. A host that replaces another keeps its place, and one that
  comes back after a removal comes last.

`HostRegistry.layered_ofCalls` puts this together: public hosts never change and come first in every
look-up, and behind them a look-up by id or by URI finds what the history of the calls says.
-/

set_option autoImplicit false

namespace MotifQuery

/-- A call on the unlisted hosts of a registry. -/
inductive RegistryCall where
  | add (new : HostListing)
  | remove (id : String)

namespace RegistryCall

/-- The id that a call is about. -/
def id : RegistryCall → String
  | add new => new.id
  | remove id => id

/-- The host that a call leaves under its id. -/
def host? : RegistryCall → Option HostListing
  | add new => some new
  | remove _ => none

end RegistryCall

namespace HostRegistry

/-- The registry after a call. -/
def call (r : HostRegistry) : RegistryCall → HostRegistry
  | .add new => r.add new
  | .remove id => r.remove id

/-- The registry of public hosts after a list of calls. -/
def ofCalls (listed : List HostListing) (calls : List RegistryCall) : HostRegistry :=
  calls.foldl call { listed }

/-- The host that was last added under an id and not removed since. -/
def standing (calls : List RegistryCall) (id : String) : Option HostListing :=
  (calls.reverse.find? fun c => c.id == id).bind RegistryCall.host?

/-- The call at a position brings an id in that stays: it adds a host under the id where none
stands, and no later call removes it. -/
structure EntersAt (calls : List RegistryCall) (id : String) (n : Nat) : Prop where
  added : ∃ new : HostListing, calls[n]? = some (.add new) ∧ new.id = id
  absent : standing (calls.take n) id = none
  kept : ∀ m, n < m → calls[m]? ≠ some (.remove id)

/-- The first id came in before the second one. -/
def EntersBefore (calls : List RegistryCall) (x y : String) : Prop :=
  ∃ m n, EntersAt calls x m ∧ EntersAt calls y n ∧ m < n

/-! ### The history of an id -/

theorem standing_concat (calls : List RegistryCall) (c : RegistryCall) (id : String) :
    standing (calls ++ [c]) id = if c.id = id then c.host? else standing calls id := by
  rw [standing, standing, List.reverse_concat, List.find?_cons]
  by_cases hid : c.id = id
  · rw [if_pos hid, beq_iff_eq.2 hid]
    rfl
  · rw [if_neg hid, beq_eq_false_iff_ne.2 hid]

/-- What was added and not removed since stands. -/
theorem isSome_standing {calls : List RegistryCall} {id : String} {n : Nat} {new : HostListing}
    (hadded : calls[n]? = some (.add new)) (hid : new.id = id)
    (hkept : ∀ m, n < m → calls[m]? ≠ some (.remove id)) : (standing calls id).isSome := by
  -- from the last call, which is the one at `n`, another one under the id, or none of both
  induction calls using List.reverseRecOn with
  | nil => cases hadded
  | append_singleton rest c ih =>
    rw [standing_concat]
    have hn : n ≤ rest.length := by
      have hlt := (List.getElem?_eq_some_iff.1 hadded).1
      rw [List.length_append, List.length_singleton] at hlt
      omega
    split
    · next hcid =>
      cases c with
      | add other => rfl
      | remove other =>
        obtain rfl : other = id := hcid
        rcases Nat.lt_or_eq_of_le hn with hlt | rfl
        · exact absurd (by simp) (hkept _ hlt)
        · simp at hadded
    · next hcid =>
      have hlt : n < rest.length := by
        refine Nat.lt_of_le_of_ne hn ?_
        rintro rfl
        rw [List.getElem?_concat_length] at hadded
        cases hadded
        exact hcid hid
      refine ih (by rwa [List.getElem?_append_left hlt] at hadded) fun m hm hremove => ?_
      refine hkept m hm ?_
      rw [List.getElem?_append_left (List.getElem?_eq_some_iff.1 hremove).1]
      exact hremove

namespace EntersAt

variable {calls : List RegistryCall} {id x y : String} {m n : Nat}

theorem lt_length (h : EntersAt calls id n) : n < calls.length := by
  obtain ⟨new, hadded, -⟩ := h.added
  exact (List.getElem?_eq_some_iff.1 hadded).1

/-- At one position comes in one id. -/
theorem id_unique (hx : EntersAt calls x n) (hy : EntersAt calls y n) : x = y := by
  obtain ⟨new, hnew, rfl⟩ := hx.added
  obtain ⟨other, hother, rfl⟩ := hy.added
  rw [hnew] at hother
  cases hother
  rfl

/-- An id that came in stands, so it does not come in again. -/
theorem not_lt (hm : EntersAt calls id m) (hn : EntersAt calls id n) : ¬ m < n := by
  intro hlt
  obtain ⟨new, hadded, hid⟩ := hm.added
  have hstanding : (standing (calls.take n) id).isSome := by
    refine isSome_standing (n := m) (by rwa [List.getElem?_take_of_lt hlt]) hid ?_
    intro k hk hremove
    have hkn : k < n := by
      have := (List.getElem?_eq_some_iff.1 hremove).1
      rw [List.length_take] at this
      omega
    exact hm.kept k hk (by rwa [List.getElem?_take_of_lt hkn] at hremove)
  rw [hn.absent] at hstanding
  cases hstanding

/-- An id comes in at one position only. -/
theorem unique (hm : EntersAt calls id m) (hn : EntersAt calls id n) : m = n := by
  have hmn := hm.not_lt hn
  have hnm := hn.not_lt hm
  omega

/-- A later call takes nothing back unless it removes the id. -/
theorem concat (h : EntersAt calls id n) {c : RegistryCall} (hc : c ≠ .remove id) :
    EntersAt (calls ++ [c]) id n where
  added := by
    rw [List.getElem?_append_left h.lt_length]
    exact h.added
  absent := by
    rw [List.take_append_of_le_length (Nat.le_of_lt h.lt_length)]
    exact h.absent
  kept m hm hremove := by
    rw [List.getElem?_append] at hremove
    split at hremove
    · exact h.kept m hm hremove
    · rw [List.getElem?_singleton] at hremove
      split at hremove
      · exact hc (Option.some.inj hremove)
      · cases hremove

/-- Where nothing stands, an addition brings the id in. -/
theorem of_absent {new : HostListing} (h : standing calls new.id = none) :
    EntersAt (calls ++ [.add new]) new.id calls.length where
  added := ⟨new, List.getElem?_concat_length, rfl⟩
  absent := by rwa [List.take_left]
  kept m hm hremove := by
    rw [List.getElem?_append_right (Nat.le_of_lt hm), List.getElem?_singleton,
      if_neg (by omega)] at hremove
    cases hremove

end EntersAt

theorem EntersBefore.concat {calls : List RegistryCall} {x y : String} {c : RegistryCall}
    (h : EntersBefore calls x y) (hx : c ≠ .remove x) (hy : c ≠ .remove y) :
    EntersBefore (calls ++ [c]) x y := by
  obtain ⟨m, n, hm, hn, hlt⟩ := h
  exact ⟨m, n, hm.concat hx, hn.concat hy, hlt⟩

/-! ### The ids of the unlisted hosts -/

/-- The ids of the unlisted hosts. -/
def unlistedIds (r : HostRegistry) : List String :=
  r.unlisted.map (·.id)

theorem unlistedIds_add (r : HostRegistry) (new : HostListing) :
    (r.add new).unlistedIds
      = if new.id ∈ r.unlistedIds then r.unlistedIds else r.unlistedIds ++ [new.id] :=
  HostListing.ids_replaceIn new r.unlisted

theorem unlistedIds_remove (r : HostRegistry) (id : String) :
    (r.remove id).unlistedIds = r.unlistedIds.filter (· != id) := by
  rw [unlistedIds, unlistedIds, List.filter_map]
  rfl

theorem mem_unlistedIds_iff {r : HostRegistry} {id : String} :
    id ∈ r.unlistedIds ↔ (r.unlisted? id).isSome := by
  simp [unlistedIds, unlisted?]

/-- A removal takes a host away when one has the id. -/
theorem removes_iff {r : HostRegistry} {id : String} :
    r.removes id = true ↔ ∃ h ∈ r.unlisted, h.id = id := by
  rw [removes, bne_iff_ne, ne_comm, Ne, remove, List.length_filter_eq_length_iff]
  simp

/-! ### Many calls -/

theorem ofCalls_concat (listed : List HostListing) (calls : List RegistryCall) (c : RegistryCall) :
    ofCalls listed (calls ++ [c]) = (ofCalls listed calls).call c :=
  List.foldl_concat _ _ _ _

/-- Public hosts never change. -/
theorem listed_ofCalls (listed : List HostListing) (calls : List RegistryCall) :
    (ofCalls listed calls).listed = listed := by
  induction calls using List.reverseRecOn with
  | nil => rfl
  | append_singleton rest c ih =>
    rw [ofCalls_concat]
    cases c <;> exact ih

/-- An id has the unlisted host that stands under it. -/
theorem unlisted?_ofCalls (listed : List HostListing) (calls : List RegistryCall) (id : String) :
    (ofCalls listed calls).unlisted? id = standing calls id := by
  induction calls using List.reverseRecOn with
  | nil => rfl
  | append_singleton rest c ih =>
    rw [ofCalls_concat, standing_concat, ← ih]
    cases c with
    | add new => exact unlisted?_add _ new id
    | remove other => exact unlisted?_remove _ other id

/-- The ids of the unlisted hosts do not repeat, each came in once, and they stand in the order in
which they came in. -/
structure Ordered (r : HostRegistry) (calls : List RegistryCall) : Prop where
  nodup : r.unlistedIds.Nodup
  entered : ∀ id ∈ r.unlistedIds, ∃ n, EntersAt calls id n
  order : r.unlistedIds.Pairwise (EntersBefore calls)

/-- A host under an old id takes the place that is there, one under a new id comes last. -/
theorem Ordered.add {r : HostRegistry} {calls : List RegistryCall} (h : r.Ordered calls)
    (hstanding : ∀ id, r.unlisted? id = standing calls id) (new : HostListing) :
    (r.add new).Ordered (calls ++ [.add new]) := by
  have hold : r.unlistedIds.Pairwise (EntersBefore (calls ++ [.add new])) :=
    h.order.imp fun hbefore => hbefore.concat (by simp) (by simp)
  -- an old id keeps the call at which it entered, a new one enters with this call
  by_cases hmem : new.id ∈ r.unlistedIds
  · have hids : (r.add new).unlistedIds = r.unlistedIds := by rw [unlistedIds_add, if_pos hmem]
    constructor
    · rw [hids]
      exact h.nodup
    · intro id hid
      obtain ⟨n, hn⟩ := h.entered id (hids ▸ hid)
      exact ⟨n, hn.concat (by simp)⟩
    · rw [hids]
      exact hold
  · have hids : (r.add new).unlistedIds = r.unlistedIds ++ [new.id] := by
      rw [unlistedIds_add, if_neg hmem]
    have hnew : EntersAt (calls ++ [.add new]) new.id calls.length := by
      refine .of_absent ?_
      rwa [mem_unlistedIds_iff, hstanding, Option.not_isSome_iff_eq_none] at hmem
    have hentered : ∀ id ∈ r.unlistedIds, ∃ n, n < calls.length ∧
        EntersAt (calls ++ [.add new]) id n := fun id hid => by
      obtain ⟨n, hn⟩ := h.entered id hid
      exact ⟨n, hn.lt_length, hn.concat (by simp)⟩
    constructor
    · rw [hids, ← List.concat_eq_append, List.nodup_concat]
      exact ⟨hmem, h.nodup⟩
    · intro id hid
      rw [hids] at hid
      rcases List.mem_append.1 hid with hid | hid
      · obtain ⟨n, -, hn⟩ := hentered id hid
        exact ⟨n, hn⟩
      · exact ⟨_, List.mem_singleton.1 hid ▸ hnew⟩
    · rw [hids]
      refine List.pairwise_append.2 ⟨hold, List.pairwise_singleton _ _, fun x hx y hy => ?_⟩
      obtain ⟨n, hlt, hn⟩ := hentered x hx
      exact ⟨n, _, hn, List.mem_singleton.1 hy ▸ hnew, hlt⟩

/-- A removal leaves the other hosts in their order. -/
theorem Ordered.remove {r : HostRegistry} {calls : List RegistryCall} (h : r.Ordered calls)
    (id : String) : (r.remove id).Ordered (calls ++ [.remove id]) := by
  have hne : ∀ {x}, x ∈ r.unlistedIds.filter (· != id) →
      x ∈ r.unlistedIds ∧ RegistryCall.remove id ≠ .remove x := fun hx => by
    obtain ⟨hx, hid⟩ := List.mem_filter.1 hx
    exact ⟨hx, fun heq => bne_iff_ne.1 hid (RegistryCall.remove.inj heq).symm⟩
  constructor
  · rw [unlistedIds_remove]
    exact h.nodup.filter _
  · intro x hx
    rw [unlistedIds_remove] at hx
    obtain ⟨n, hn⟩ := h.entered x (hne hx).1
    exact ⟨n, hn.concat (hne hx).2⟩
  · rw [unlistedIds_remove]
    refine (h.order.filter _).imp_of_mem fun hx hy hbefore => ?_
    exact hbefore.concat (hne hx).2 (hne hy).2

theorem ordered_ofCalls (listed : List HostListing) (calls : List RegistryCall) :
    (ofCalls listed calls).Ordered calls := by
  induction calls using List.reverseRecOn with
  | nil => exact ⟨List.nodup_nil, fun id hid => (nomatch hid), List.Pairwise.nil⟩
  | append_singleton rest c ih =>
    rw [ofCalls_concat]
    cases c with
    | add new => exact ih.add (unlisted?_ofCalls listed rest) new
    | remove id => exact ih.remove id

/-! ### Look-up by URI -/

/-- Of the hosts that stand with a URI the one whose id came in first. -/
structure Earliest (calls : List RegistryCall) (uri : String) (h : HostListing) : Prop where
  stands : standing calls h.id = some h
  uri_eq : h.uri = uri
  first : ∃ n, EntersAt calls h.id n ∧ ∀ (x : HostListing) (m : Nat),
    standing calls x.id = some x → x.uri = uri → EntersAt calls x.id m → n ≤ m

/-- Only one host is the earliest with a URI. -/
theorem Earliest.unique {calls : List RegistryCall} {uri : String} {h x : HostListing}
    (hh : Earliest calls uri h) (hx : Earliest calls uri x) : h = x := by
  obtain ⟨m, hm, hmfirst⟩ := hh.first
  obtain ⟨n, hn, hnfirst⟩ := hx.first
  obtain rfl : m = n :=
    Nat.le_antisymm (hmfirst x n hx.stands hx.uri_eq hn) (hnfirst h m hh.stands hh.uri_eq hm)
  have hstands := hh.stands
  rw [hm.id_unique hn, hx.stands] at hstands
  exact (Option.some.inj hstands).symm

section
variable {r : HostRegistry} {calls : List RegistryCall}

/-- Where no id repeats, the unlisted hosts are those that are found under their ids. -/
theorem Ordered.mem_unlisted_iff (hr : r.Ordered calls)
    (hstanding : ∀ id, r.unlisted? id = standing calls id) {h : HostListing} :
    h ∈ r.unlisted ↔ standing calls h.id = some h := by
  rw [← hstanding]
  exact ⟨find?_of_nodup_map hr.nodup, fun hfound => List.mem_of_find?_eq_some hfound⟩

/-- The first unlisted host with a URI is the earliest of those that stand. -/
theorem Ordered.find?_uri_iff (hr : r.Ordered calls)
    (hstanding : ∀ id, r.unlisted? id = standing calls id) {uri : String} {h : HostListing} :
    r.unlisted.find? (fun h => h.uri == uri) = some h ↔ Earliest calls uri h := by
  have hfirst : ∀ {h}, r.unlisted.find? (fun h => h.uri == uri) = some h →
      Earliest calls uri h := by
    intro h hfound
    obtain ⟨huri, front, back, hsplit, hfront⟩ := List.find?_eq_some_iff_append.1 hfound
    have hmem : h ∈ r.unlisted := List.mem_of_find?_eq_some hfound
    obtain ⟨n, hn⟩ := hr.entered h.id (List.mem_map_of_mem hmem)
    refine ⟨(hr.mem_unlisted_iff hstanding).1 hmem, beq_iff_eq.1 huri, n, hn, ?_⟩
    intro x m hx hxuri hm
    -- another host with the URI is the same one or stands behind it
    have hxmem : x ∈ r.unlisted := (hr.mem_unlisted_iff hstanding).2 hx
    rw [hsplit, List.mem_append, List.mem_cons] at hxmem
    rcases hxmem with hxfront | rfl | hxback
    · have hother := hfront x hxfront
      simp [hxuri] at hother
    · exact Nat.le_of_eq (hn.unique hm)
    · have horder := hr.order
      rw [unlistedIds, hsplit, List.map_append, List.map_cons] at horder
      obtain ⟨m', n', hm', hn', hlt⟩ := (List.pairwise_cons.1 (List.pairwise_append.1 horder).2.1).1
        x.id (List.mem_map_of_mem hxback)
      rw [hm'.unique hn, hn'.unique hm] at hlt
      exact Nat.le_of_lt hlt
  refine ⟨hfirst, fun hearliest => ?_⟩
  have hmem := (hr.mem_unlisted_iff hstanding).2 hearliest.stands
  cases hfound : r.unlisted.find? (fun h => h.uri == uri) with
  | none => exact absurd (beq_iff_eq.2 hearliest.uri_eq) (List.find?_eq_none.1 hfound h hmem)
  | some x => rw [(hfirst hfound).unique hearliest]

/-- A URI has the name of the first public host with it, or else of the earliest unlisted one. -/
theorem Ordered.name?_eq_some_iff (hr : r.Ordered calls)
    (hstanding : ∀ id, r.unlisted? id = standing calls id) {uri name : String} :
    r.name? uri = some name ↔
      (∃ h, r.listed.find? (fun h => h.uri == uri) = some h ∧ h.name = name) ∨
        (∀ h ∈ r.listed, h.uri ≠ uri) ∧ ∃ h, Earliest calls uri h ∧ h.name = name := by
  rw [name?, find?, Option.map_eq_some_iff]
  cases hpublic : r.listed.find? fun h => h.uri == uri with
  | none =>
    have hnone : ∀ h ∈ r.listed, h.uri ≠ uri := by simpa using hpublic
    simp only [Option.none_or, hr.find?_uri_iff hstanding]
    refine ⟨fun hname => .inr ⟨hnone, hname⟩, ?_⟩
    rintro (⟨_, hsome, -⟩ | ⟨-, hname⟩)
    · cases hsome
    · exact hname
  | some h =>
    have huri : h.uri = uri := by simpa using List.find?_some hpublic
    refine ⟨.inl, ?_⟩
    rintro (hname | ⟨hnone, -⟩)
    · exact hname
    · exact absurd huri (hnone h (List.mem_of_find?_eq_some hpublic))

end

/-! ### Two layers -/

/-- A registry of public hosts answers as the history of its calls says. -/
structure Layered (r : HostRegistry) (listed : List HostListing) (calls : List RegistryCall) :
    Prop where
  /-- Public hosts never change. -/
  listed_eq : r.listed = listed
  unlistedIds_nodup : r.unlistedIds.Nodup
  /-- Among the unlisted hosts an id has the one that was last added and not removed since. -/
  unlisted?_eq : ∀ id, r.unlisted? id = standing calls id
  /-- A public host comes before an unlisted one with its id. -/
  listing?_eq : ∀ id,
    r.listing? id = (listed.find? fun h => h.id == id).or (standing calls id)
  uri?_eq : ∀ id,
    r.uri? id = ((listed.find? fun h => h.id == id).or (standing calls id)).map (·.uri)
  /-- A URI has the name of the first public host with it, or else that of the unlisted host with it
  whose id came in earliest. -/
  name?_iff : ∀ uri name, r.name? uri = some name ↔
    (∃ h, listed.find? (fun h => h.uri == uri) = some h ∧ h.name = name) ∨
      (∀ h ∈ listed, h.uri ≠ uri) ∧ ∃ h, Earliest calls uri h ∧ h.name = name
  /-- A removal tells whether an unlisted host had the id. -/
  removes_iff : ∀ id, r.removes id = true ↔ ∃ h ∈ r.unlisted, h.id = id
  /-- It changes nothing under other ids. -/
  lookup_remove : ∀ id other, other ≠ id →
    (r.remove id).listing? other = r.listing? other ∧ (r.remove id).uri? other = r.uri? other

/-- After any list of calls a registry answers by its public hosts first, and behind them by what
was last added and not removed since. -/
theorem layered_ofCalls (listed : List HostListing) (calls : List RegistryCall) :
    (ofCalls listed calls).Layered listed calls := by
  have hlisted := listed_ofCalls listed calls
  have hstanding := unlisted?_ofCalls listed calls
  have hordered := ordered_ofCalls listed calls
  have hlisting : ∀ id, (ofCalls listed calls).listing? id
      = (listed.find? fun h => h.id == id).or (standing calls id) := fun id => by
    rw [← hstanding, listing?, find?, hlisted]
    rfl
  have hremove : ∀ id other, other ≠ id →
      ((ofCalls listed calls).remove id).listing? other = (ofCalls listed calls).listing? other :=
    fun id other hne => listing?_remove_of_ne (Ne.symm hne)
  exact {
    listed_eq := hlisted
    unlistedIds_nodup := hordered.nodup
    unlisted?_eq := hstanding
    listing?_eq := hlisting
    uri?_eq := fun id => by rw [uri?, hlisting]
    name?_iff := fun uri name => by rw [hordered.name?_eq_some_iff hstanding, hlisted]
    removes_iff := fun id => removes_iff
    lookup_remove := fun id other hne =>
      ⟨hremove id other hne, by rw [uri?, uri?, hremove id other hne]⟩ }

/-- A host that replaces another keeps its place, so it names the URI before a host that was added
in between. -/
example :
    (ofCalls [] [.add { id := "a", uri := "u", name := "A" },
      .add { id := "b", uri := "u", name := "B" },
      .add { id := "a", uri := "u", name := "C" }]).name? "u" = some "C" := by decide

end HostRegistry

end MotifQuery
