import Mathlib.Data.List.Induction
import Mathlib.Data.List.Nodup
import MotifQuery.Dict

/-!
# `MotifQuery.Proofs.Dict`: dictionaries as functions

A dictionary is read through `get?`. Each operation has one equation for it, so no later
proof opens the list of entries: `get?_insert`, `get?_erase`, `get?_update`, `get?_merge`,
`get?_map`, `get?_mapWithKey`, `get?_filter` and `get?_ofList`. `Dict.ext_get?` closes the
circle: two dictionaries that agree on every key are equal, since the entries come by
ascending key.
-/

set_option autoImplicit false

namespace MotifQuery

variable {α β : Type}

/-! ### Looking up in a list of entries -/

/-- After an insertion the new value stands at its key and every other key keeps what it
had. -/
theorem lookupEntry_insertEntry (key other : String) (value : α)
    (entries : List (String × α)) :
    lookupEntry other (insertEntry key value entries)
      = if other = key then some value else lookupEntry other entries := by
  induction entries with
  | nil => rfl
  | cons first rest ih =>
    rw [insertEntry]
    split
    · rfl
    · split
      · next heq =>
        subst heq
        simp only [lookupEntry]
        split <;> rfl
      · next hne =>
        simp only [lookupEntry, ih]
        split
        · next h => rw [if_neg (fun hk => hne (hk.symm.trans h))]
        · rfl

/-- What is found stands in the list. -/
theorem mem_of_lookupEntry {key : String} {value : α} {entries : List (String × α)}
    (h : lookupEntry key entries = some value) : (key, value) ∈ entries := by
  induction entries with
  | nil => cases h
  | cons first rest ih =>
    rw [lookupEntry] at h
    split at h
    · next hk =>
      cases h
      subst hk
      exact List.mem_cons_self
    · exact List.mem_cons_of_mem _ (ih h)

/-- Where no key stands twice, what stands in the list is found. -/
theorem lookupEntry_eq_some_iff {key : String} {value : α} {entries : List (String × α)}
    (h : (entries.map Prod.fst).Nodup) :
    lookupEntry key entries = some value ↔ (key, value) ∈ entries := by
  refine ⟨mem_of_lookupEntry, fun hmem => ?_⟩
  induction entries with
  | nil => cases hmem
  | cons first rest ih =>
    have hfirst := List.nodup_cons.1 h
    rw [lookupEntry]
    rcases List.mem_cons.1 hmem with rfl | hmem
    · exact if_pos rfl
    · rw [if_neg, ih hfirst.2 hmem]
      rintro rfl
      exact hfirst.1 (List.mem_map.2 ⟨_, hmem, rfl⟩)

/-- A key is found exactly when it stands in the list. -/
theorem lookupEntry_eq_none_iff {key : String} {entries : List (String × α)} :
    lookupEntry key entries = none ↔ key ∉ entries.map Prod.fst := by
  induction entries with
  | nil => simp [lookupEntry]
  | cons first rest ih =>
    rw [lookupEntry, List.map_cons, List.mem_cons, not_or]
    split
    · next hk => simp [hk]
    · next hk => simp [hk, ih]

/-- Looking up in a list of pairs is looking up its entries. -/
theorem lookup_eq_lookupEntry (key : String) (entries : List (String × α)) :
    List.lookup key entries = lookupEntry key entries := by
  induction entries with
  | nil => rfl
  | cons first rest ih =>
    rw [List.lookup_cons, lookupEntry, ih]
    by_cases h : key = first.1
    · rw [if_pos h, beq_iff_eq.2 h]
    · rw [if_neg h, beq_eq_false_iff_ne.2 h]

theorem lookup_eq_some_iff_mem {key : String} {value : α} {entries : List (String × α)}
    (h : (entries.map Prod.fst).Nodup) :
    List.lookup key entries = some value ↔ (key, value) ∈ entries := by
  rw [lookup_eq_lookupEntry, lookupEntry_eq_some_iff h]

/-- In ascending entries no key stands twice. -/
theorem Ascending.nodup_keys {entries : List (String × α)} (h : Ascending entries) :
    (entries.map Prod.fst).Nodup := by
  rw [List.Nodup, List.pairwise_map]
  refine h.imp fun {a b} hlt heq => ?_
  rw [heq] at hlt
  exact String.lt_irrefl _ hlt

/-! ### Dictionaries -/

namespace Dict

theorem nodup_keys (d : Dict α) : d.keys.Nodup :=
  d.ascending.nodup_keys

/-- The entries of a dictionary are exactly what it finds. -/
theorem mem_entries_iff {d : Dict α} {key : String} {value : α} :
    (key, value) ∈ d.entries ↔ d.get? key = some value :=
  (lookupEntry_eq_some_iff d.nodup_keys).symm

/-- The keys of a dictionary are exactly those at which it finds something. -/
theorem mem_keys_iff {d : Dict α} {key : String} : key ∈ d.keys ↔ (d.get? key).isSome := by
  have h : d.get? key = none ↔ key ∉ d.keys := lookupEntry_eq_none_iff
  cases hv : d.get? key with
  | none => simpa using h.1 hv
  | some value =>
    rw [hv] at h
    simpa using h

@[simp]
theorem get?_empty (key : String) : (∅ : Dict α).get? key = none :=
  rfl

theorem get?_eq_none_of_isEmpty {d : Dict α} (h : d.isEmpty = true) (key : String) :
    d.get? key = none := by
  rw [Dict.get?, List.isEmpty_iff.1 h]
  rfl

theorem exists_get?_of_not_isEmpty {d : Dict α} (h : d.isEmpty = false) :
    ∃ key value, d.get? key = some value := by
  obtain ⟨entry, hentry⟩ := List.exists_mem_of_ne_nil _ (List.isEmpty_eq_false_iff.1 h)
  exact ⟨entry.1, entry.2, mem_entries_iff.1 hentry⟩

theorem get?_insert (d : Dict α) (key other : String) (value : α) :
    (d.insert key value).get? other = if other = key then some value else d.get? other :=
  lookupEntry_insertEntry key other value d.entries

theorem get?_update (d : Dict α) (key other : String) (default : α) (f : α → α) :
    (d.update key default f).get? other
      = if other = key then some (f ((d.get? key).getD default)) else d.get? other :=
  get?_insert d key other _

/-- Applies to every value a function of its key. -/
def mapWithKey (f : String → α → β) (d : Dict α) : Dict β :=
  ⟨d.entries.map fun entry => (entry.1, f entry.1 entry.2), by
    rw [Ascending, List.pairwise_map]
    exact d.ascending⟩

theorem keys_mapWithKey (f : String → α → β) (d : Dict α) : (d.mapWithKey f).keys = d.keys :=
  List.map_map

theorem get?_mapWithKey (f : String → α → β) (d : Dict α) (key : String) :
    (d.mapWithKey f).get? key = (d.get? key).map (f key) := by
  show lookupEntry key (d.entries.map fun entry => (entry.1, f entry.1 entry.2)) = _
  unfold get?
  induction d.entries with
  | nil => rfl
  | cons first rest ih =>
    rw [List.map_cons, lookupEntry, lookupEntry, ih]
    split
    · next hkey => rw [hkey, Option.map_some]
    · rfl

theorem get?_map (f : α → β) (d : Dict α) (key : String) :
    (d.map f).get? key = (d.get? key).map f :=
  get?_mapWithKey (fun _ => f) d key

theorem get?_filter (d : Dict α) (keep : String → α → Bool) (key : String) :
    (d.filter keep).get? key = (d.get? key).filter (keep key) := by
  ext value
  rw [Option.filter_eq_some_iff, ← mem_entries_iff, ← mem_entries_iff]
  exact List.mem_filter

theorem get?_erase (d : Dict α) (key other : String) :
    (d.erase key).get? other = if other = key then none else d.get? other := by
  have hfilter := d.get?_filter (fun k _ => k != key) other
  change (d.erase key).get? other = _ at hfilter
  rw [hfilter]
  by_cases hkey : other = key
  · simp [hkey]
  · cases d.get? other <;> simp [hkey]

/-- A filter by key keeps the keys that satisfy it. -/
theorem mem_keys_filter (d : Dict α) (keep : String → Bool) {key : String} :
    key ∈ (d.filter fun key _ => keep key).keys ↔ key ∈ d.keys ∧ keep key = true := by
  rw [mem_keys_iff, mem_keys_iff, get?_filter]
  cases d.get? key with
  | none => simp
  | some value => cases keep key <;> simp [Option.filter]

/-- Inserting entries one after the other: the last entry at a key stays. -/
theorem get?_foldl_insert (entries : List (String × α)) (d : Dict α) (key : String) :
    (entries.foldl (fun d entry => d.insert entry.1 entry.2) d).get? key
      = (lookupEntry key entries.reverse).or (d.get? key) := by
  induction entries using List.reverseRecOn with
  | nil => rfl
  | append_singleton rest last ih =>
    rw [List.foldl_concat, get?_insert, ih, List.reverse_concat, lookupEntry]
    split <;> rfl

theorem get?_ofList (entries : List (String × α)) (key : String) :
    (ofList entries).get? key = lookupEntry key entries.reverse := by
  rw [ofList, get?_foldl_insert]
  exact Option.or_none

/-- Where no key stands twice in a list, its dictionary finds exactly its entries. -/
theorem get?_ofList_eq_some_iff {entries : List (String × α)}
    (h : (entries.map Prod.fst).Nodup) {key : String} {value : α} :
    (ofList entries).get? key = some value ↔ (key, value) ∈ entries := by
  have hrev : (entries.reverse.map Prod.fst).Nodup := by
    rw [List.map_reverse]
    exact List.nodup_reverse.2 h
  rw [get?_ofList, lookupEntry_eq_some_iff hrev, List.mem_reverse]

/-- So it does where values are changed or left out. -/
theorem get?_ofList_filterMap_eq_some_iff {γ : Type} {f : α → Option β} {k : β → γ}
    {entries : List (String × α)} (h : (entries.map Prod.fst).Nodup) {key : String} {value : γ} :
    (ofList (entries.filterMap fun entry => (f entry.2).map fun v => (entry.1, k v))).get? key
        = some value
      ↔ ∃ x, (key, x) ∈ entries ∧ ∃ v, f x = some v ∧ k v = value := by
  have hkeys : ((entries.filterMap fun entry =>
      (f entry.2).map fun v => (entry.1, k v)).map Prod.fst).Nodup := by
    rw [List.Nodup, List.pairwise_map, List.pairwise_filterMap]
    refine (List.pairwise_map.1 h).imp fun hne p hp q hq => ?_
    obtain ⟨_, -, rfl⟩ := Option.map_eq_some_iff.1 hp
    obtain ⟨_, -, rfl⟩ := Option.map_eq_some_iff.1 hq
    exact hne
  rw [get?_ofList_eq_some_iff hkeys, List.mem_filterMap]
  simp only [Option.map_eq_some_iff, Prod.mk.injEq]
  constructor
  · rintro ⟨⟨other, x⟩, hx, v, hv, rfl, rfl⟩
    exact ⟨x, hx, v, hv, rfl⟩
  · rintro ⟨x, hx, v, hv, rfl⟩
    exact ⟨(key, x), hx, v, hv, rfl, rfl⟩

/-- The keys of a dictionary are those of the list that it is made of. -/
theorem mem_keys_ofList {entries : List (String × α)} {key : String} :
    key ∈ (ofList entries).keys ↔ key ∈ entries.map Prod.fst := by
  rw [mem_keys_iff, get?_ofList, ← not_iff_not, Bool.not_eq_true, Option.isSome_eq_false_iff,
    Option.isNone_iff_eq_none, lookupEntry_eq_none_iff, List.map_reverse, List.mem_reverse]

/-- The entries of a dictionary stand in the list that it is made of. -/
theorem mem_of_mem_ofList {entries : List (String × α)} {entry : String × α}
    (h : entry ∈ (ofList entries).entries) : entry ∈ entries := by
  have hget : (ofList entries).get? entry.1 = some entry.2 := mem_entries_iff.1 h
  rw [get?_ofList] at hget
  exact List.mem_reverse.1 (mem_of_lookupEntry hget)

/-- In a merged dictionary the second one wins. -/
theorem get?_merge (d other : Dict α) (key : String) :
    (d.merge other).get? key = (other.get? key).or (d.get? key) := by
  rw [merge, get?_foldl_insert]
  congr 1
  ext value
  rw [← mem_entries_iff, lookupEntry_eq_some_iff, List.mem_reverse]
  rw [List.map_reverse]
  exact List.nodup_reverse.2 other.nodup_keys

/-- Both dictionaries together; where both have a key, their values are joined. -/
def mergeWith (f : α → α → α) (d other : Dict α) : Dict α :=
  other.entries.foldl
    (fun d entry => d.insert entry.1 ((d.get? entry.1).elim entry.2 fun a => f a entry.2)) d

theorem get?_mergeWith (f : α → α → α) (d other : Dict α) (key : String) :
    (d.mergeWith f other).get? key = Option.merge f (d.get? key) (other.get? key) := by
  have hnodup : (other.entries.map Prod.fst).Nodup := other.nodup_keys
  show (mergeWith f d other).get? key = Option.merge f _ (lookupEntry key other.entries)
  unfold mergeWith
  generalize other.entries = entries at hnodup ⊢
  -- a key comes once among the entries, so its value is joined once
  induction entries generalizing d with
  | nil => exact Option.merge_none_right.symm
  | cons entry rest ih =>
    obtain ⟨hentry, hrest⟩ := List.nodup_cons.1 hnodup
    rw [List.foldl_cons, ih _ hrest, get?_insert, lookupEntry]
    split
    · next hkey =>
      rw [lookupEntry_eq_none_iff.2 (hkey ▸ hentry), hkey]
      cases d.get? entry.1 <;> rfl
    · rfl

/-- A dictionary is determined by what it finds. -/
theorem ext_get? {d other : Dict α} (h : ∀ key, d.get? key = other.get? key) : d = other := by
  obtain ⟨entries, hasc⟩ := d
  obtain ⟨entries', hasc'⟩ := other
  have hmem : ∀ entry, entry ∈ entries ↔ entry ∈ entries' := by
    rintro ⟨key, value⟩
    have hd := @mem_entries_iff α ⟨entries, hasc⟩ key value
    have ho := @mem_entries_iff α ⟨entries', hasc'⟩ key value
    rw [h] at hd
    exact hd.trans ho.symm
  have hperm : entries.Perm entries' := by
    rw [List.perm_ext_iff_of_nodup (List.Nodup.of_map _ hasc.nodup_keys)
      (List.Nodup.of_map _ hasc'.nodup_keys)]
    exact hmem
  have hlists : entries = entries' :=
    hperm.eq_of_pairwise (fun a b _ _ hab hba => absurd (String.lt_trans hab hba)
      (String.lt_irrefl _)) hasc hasc'
  subst hlists
  rfl

/-- The later of two insertions at a key stays. -/
theorem insert_insert (d : Dict α) (key : String) (value value' : α) :
    (d.insert key value).insert key value' = d.insert key value' := by
  refine ext_get? fun other => ?_
  rw [get?_insert, get?_insert, get?_insert]
  split <;> rfl

/-- Insertions at two keys may be swapped. -/
theorem insert_comm (d : Dict α) {key key' : String} (h : key ≠ key') (value value' : α) :
    (d.insert key value).insert key' value' = (d.insert key' value').insert key value := by
  refine ext_get? fun other => ?_
  simp only [get?_insert]
  split
  · next hother => rw [if_neg (hother.trans_ne h.symm)]
  · rfl

/-- The dictionary of the entries of a dictionary. -/
theorem ofList_entries (d : Dict α) : ofList d.entries = d := by
  refine ext_get? fun key => ?_
  ext value
  rw [get?_ofList_eq_some_iff d.nodup_keys, mem_entries_iff]

/-- What is undone value by value is undone for the entries. -/
theorem mapM_entries_map {f : α → β} {g : β → Option α} {d : Dict α}
    (h : ∀ entry ∈ d.entries, g (f entry.2) = some entry.2) :
    ((d.map f).entries.mapM fun entry => (g entry.2).map fun a => (entry.1, a))
      = some d.entries := by
  show ((d.entries.map fun entry => (entry.1, f entry.2)).mapM _) = _
  generalize d.entries = entries at h ⊢
  induction entries with
  | nil => rfl
  | cons entry rest ih =>
    obtain ⟨hentry, hrest⟩ := List.forall_mem_cons.1 h
    rw [List.map_cons, List.mapM_cons, ih hrest, hentry]
    rfl

end Dict

end MotifQuery
