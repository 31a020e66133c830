import Mathlib.Algebra.GroupWithZero.Nat
import MotifQuery.Aggregation.Basic
import MotifQuery.Proofs.Dict

/-!
# `MotifQuery.Proofs.Aggregation.Grouping`: grouped counts account for every match

Grouping is one row of tallies, a tally for the pair of keys of each binding
(`groupBy_eq_tallyAll`). A tally adds one to one count, so it adds one to the sum of the counts
under its outer key, one to the sum of those under its inner key, and nothing to any other sum
(`sumAt_tally`, `sumOver_tally`). Over a whole row of tallies a sum is therefore the number of
the pairs that have the key, and a match has every entity once: where all matches bind an
entity, its counts sum up to the number of the matches.

What is not a sum follows from `at?_tallyAll`: the count of a pair is how often the pair comes,
and a pair that does not come has none.
-/

set_option autoImplicit false

namespace MotifQuery

variable {α : Type}

/-! ### Sums over the entries of a dictionary -/

theorem sum_insertEntry (w : α → Nat) (key : String) (value : α) {entries : List (String × α)}
    (h : Ascending entries) :
    ((insertEntry key value entries).map (w ·.2)).sum + (lookupEntry key entries).elim 0 w
      = (entries.map (w ·.2)).sum + w value := by
  induction entries with
  | nil => simp [insertEntry, lookupEntry]
  | cons first rest ih =>
    obtain ⟨hfirst, hrest⟩ := List.pairwise_cons.1 h
    rw [insertEntry, lookupEntry]
    split
    · next hlt =>
      -- a smaller key stands nowhere behind the first entry
      have hne : key ≠ first.1 := fun heq => String.lt_irrefl _ (heq ▸ hlt)
      have hnone : lookupEntry key rest = none := by
        rw [lookupEntry_eq_none_iff]
        rintro hmem
        obtain ⟨entry, hentry, rfl⟩ := List.mem_map.1 hmem
        exact String.lt_irrefl _ (String.lt_trans hlt (hfirst entry hentry))
      rw [if_neg hne, hnone]
      simp only [List.map_cons, List.sum_cons, Option.elim_none]
      omega
    · split
      · simp only [List.map_cons, List.sum_cons, Option.elim_some]
        omega
      · have := ih hrest
        simp only [List.map_cons, List.sum_cons]
        omega

namespace Dict

/-- What stands at a key leaves the sum, and what is put there comes in. -/
theorem sum_values_insert (d : Dict α) (w : α → Nat) (key : String) (value : α) :
    ((d.insert key value).values.map w).sum + (d.get? key).elim 0 w
      = (d.values.map w).sum + w value := by
  have h := sum_insertEntry w key value d.ascending
  unfold values
  rw [List.map_map, List.map_map]
  exact h

/-- An update that adds to the weight of a value adds as much to the sum. -/
theorem sum_values_update (d : Dict α) {w : α → Nat} {key : String} {default : α} {f : α → α}
    {n : Nat} (hdefault : w default = 0) (hf : ∀ a, w (f a) = w a + n) :
    ((d.update key default f).values.map w).sum = (d.values.map w).sum + n := by
  have h := d.sum_values_insert w key (f ((d.get? key).getD default))
  rw [hf] at h
  unfold update
  cases hv : d.get? key with
  | none =>
    simp only [hv, Option.elim_none, Option.getD_none, hdefault] at h ⊢
    omega
  | some value =>
    simp only [hv, Option.elim_some, Option.getD_some] at h ⊢
    omega

theorem exists_get?_of_mem_values {d : Dict α} {value : α} (h : value ∈ d.values) :
    ∃ key, d.get? key = some value := by
  obtain ⟨entry, hentry, rfl⟩ := List.mem_map.1 h
  exact ⟨entry.1, mem_entries_iff.1 hentry⟩

end Dict

/-! ### One tally -/

namespace GroupedCounts

variable {counts : GroupedCounts} {outer inner : String}

/-- The sum of the counts under an outer key. -/
def sumAt (counts : GroupedCounts) (outer : String) : Nat :=
  ((counts.get? outer).getD ∅).values.sum

/-- The sum of the counts under an inner key, over all outer keys. -/
def sumOver (counts : GroupedCounts) (inner : String) : Nat :=
  (counts.values.map fun group => (group.get? inner).getD 0).sum

/-- The count of a pair of keys. -/
def at? (counts : GroupedCounts) (outer inner : String) : Option Nat :=
  (counts.get? outer).bind fun group => group.get? inner

/-- A tally adds one to the sum under its outer key. -/
theorem sumAt_tally (counts : GroupedCounts) (outer inner x : String) :
    (counts.tally outer inner).sumAt x = counts.sumAt x + if x = outer then 1 else 0 := by
  unfold sumAt tally
  rw [Dict.get?_update]
  split
  · next heq =>
    subst heq
    have hsum := @Dict.sum_values_update _ ((counts.get? x).getD ∅) id inner 0 (· + 1) 1 rfl
      fun _ => rfl
    rw [List.map_id, List.map_id] at hsum
    exact hsum
  · rfl

/-- A tally adds one to the sum under its inner key. -/
theorem sumOver_tally (counts : GroupedCounts) (outer inner x : String) :
    (counts.tally outer inner).sumOver x = counts.sumOver x + if x = inner then 1 else 0 := by
  refine Dict.sum_values_update counts rfl fun group => ?_
  rw [Dict.get?_update]
  split
  · next heq => rw [heq, Option.getD_some]
  · rfl

/-- A tally changes the count of its pair and no other. -/
theorem at?_tally (counts : GroupedCounts) (outer inner x y : String) :
    (counts.tally outer inner).at? x y
      = if (x, y) = (outer, inner) then some ((counts.at? x y).getD 0 + 1)
        else counts.at? x y := by
  unfold at? tally
  rw [Dict.get?_update]
  by_cases hx : x = outer
  · subst hx
    rw [if_pos rfl, Option.bind_some, Dict.get?_update]
    by_cases hy : y = inner
    · subst hy
      rw [if_pos rfl, if_pos rfl]
      cases counts.get? x <;> rfl
    · rw [if_neg hy, if_neg fun h => hy (congrArg Prod.snd h)]
      cases counts.get? x <;> rfl
  · rw [if_neg hx, if_neg fun h => hx (congrArg Prod.fst h)]

/-! ### A row of tallies -/

/-- Tallies one pair of keys after the other. -/
def tallyAll (counts : GroupedCounts) (pairs : List (String × String)) : GroupedCounts :=
  pairs.foldl (fun counts pair => counts.tally pair.1 pair.2) counts

/-- What one tally adds to a measure is added once for each pair that counts for it. -/
theorem measure_tallyAll (measure : GroupedCounts → Nat) {p : String × String → Bool}
    (h : ∀ counts pair,
      measure (counts.tally pair.1 pair.2) = measure counts + if p pair then 1 else 0)
    (pairs : List (String × String)) (counts : GroupedCounts) :
    measure (counts.tallyAll pairs) = measure counts + pairs.countP p := by
  induction pairs generalizing counts with
  | nil => rfl
  | cons pair rest ih =>
    change measure ((counts.tally pair.1 pair.2).tallyAll rest) = _
    rw [ih, h, List.countP_cons]
    omega

/-- The count of a pair is how often it comes; a pair that does not come has none. -/
theorem at?_tallyAll (pairs : List (String × String)) (x y : String) :
    (tallyAll (∅ : Dict (Dict Nat)) pairs).at? x y
      = (some (pairs.count (x, y))).filter (0 < ·) := by
  -- from the end, where the last tally finds the counts of all pairs before it
  induction pairs using List.reverseRecOn with
  | nil => rfl
  | append_singleton rest pair ih =>
    unfold tallyAll at ih ⊢
    rw [List.foldl_concat, at?_tally, ih, List.count_append]
    by_cases hpair : (x, y) = pair
    · subst hpair
      rw [if_pos rfl, List.count_singleton_self]
      cases List.count (x, y) rest <;> simp [Option.filter]
    · rw [if_neg hpair, List.count_singleton, beq_eq_false_iff_ne.2 (Ne.symm hpair)]
      rfl

/-- Only a pair that comes opens a group. -/
theorem mem_keys_tallyAll {pairs : List (String × String)} {x : String}
    (h : x ∈ (tallyAll (∅ : Dict (Dict Nat)) pairs).keys) : x ∈ pairs.map Prod.fst := by
  induction pairs using List.reverseRecOn with
  | nil => cases h
  | append_singleton rest pair ih =>
    unfold tallyAll at ih h
    rw [List.foldl_concat, tally, Dict.mem_keys_iff, Dict.get?_update] at h
    rw [List.map_append, List.mem_append]
    split at h
    · next heq => exact .inr (heq ▸ List.mem_singleton_self _)
    · exact .inl (ih (Dict.mem_keys_iff.2 h))

end GroupedCounts

/-! ### Grouped matches -/

section Grouping

variable {key : String → String → String × String} {rows : List Match} {entities : List String}

/-- The pairs of keys of the bindings of all matches. -/
def groupingPairs (key : String → String → String × String) (rows : List Match) :
    List (String × String) :=
  rows.flatMap fun row => row.entries.map fun bound => key bound.1 bound.2

/-- Grouping tallies the pairs of all bindings. -/
theorem groupBy_eq_tallyAll (key : String → String → String × String) (rows : List Match) :
    groupBy key rows = GroupedCounts.tallyAll (∅ : Dict (Dict Nat)) (groupingPairs key rows) := by
  unfold groupBy GroupedCounts.tallyAll groupingPairs
  rw [List.foldl_flatMap]
  simp only [List.foldl_map]

theorem exists_bound_of_mem_groupingPairs {pair : String × String}
    (h : pair ∈ groupingPairs key rows) :
    ∃ row ∈ rows, ∃ entity ∈ row.keys, ∃ host, key entity host = pair := by
  obtain ⟨row, hrow, hpair⟩ := List.mem_flatMap.1 h
  obtain ⟨bound, hbound, rfl⟩ := List.mem_map.1 hpair
  exact ⟨row, hrow, bound.1, List.mem_map_of_mem hbound, bound.2, rfl⟩

/-- Where every match binds an entity, as many pairs come from it as there are matches. -/
theorem countP_groupingPairs {p : String × String → Bool} {x : String}
    (hp : ∀ entity host, p (key entity host) = decide (x = entity))
    (hx : ∀ row ∈ rows, x ∈ row.keys) : (groupingPairs key rows).countP p = rows.length := by
  induction rows with
  | nil => rfl
  | cons row rest ih =>
    obtain ⟨hrow, hrest⟩ := List.forall_mem_cons.1 hx
    have hone : (row.entries.map fun bound => key bound.1 bound.2).countP p = 1 := by
      have hkeys : row.keys.count x = 1 := List.count_eq_one_of_mem row.nodup_keys hrow
      rw [Dict.keys, List.count_eq_countP, List.countP_map] at hkeys
      rw [List.countP_map, ← hkeys]
      refine List.countP_congr fun bound _ => ?_
      rw [Function.comp_apply, Function.comp_apply, hp, decide_eq_true_eq, beq_iff_eq, eq_comm]
    have hcons : groupingPairs key (row :: rest)
        = (row.entries.map fun bound => key bound.1 bound.2) ++ groupingPairs key rest := rfl
    rw [hcons, List.countP_append, hone, ih hrest, List.length_cons]
    omega

/-- No count is zero. -/
theorem zero_notMem_groupBy : ∀ group ∈ (groupBy key rows).values, 0 ∉ group.values := by
  intro group hgroup hzero
  obtain ⟨outer, houter⟩ := Dict.exists_get?_of_mem_values hgroup
  obtain ⟨inner, hinner⟩ := Dict.exists_get?_of_mem_values hzero
  have hat : (groupBy key rows).at? outer inner = some 0 := by
    unfold GroupedCounts.at?
    rw [houter, Option.bind_some, hinner]
  rw [groupBy_eq_tallyAll, GroupedCounts.at?_tallyAll] at hat
  have hpositive := Option.filter_eq_some_iff.1 hat
  exact absurd hpositive.2 (by decide)

/-- The counts of entities, as the outer keys, account for `n` matches. -/
structure GroupedCounts.ByOuter (counts : GroupedCounts) (entities : List String) (n : Nat) :
    Prop where
  sum : ∀ x ∈ entities, counts.sumAt x = n
  names : ∀ x ∈ counts.keys, x ∈ entities
  positive : ∀ group ∈ counts.values, 0 ∉ group.values

/-- The counts of entities, as the inner keys, account for `n` matches. -/
structure GroupedCounts.ByInner (counts : GroupedCounts) (entities : List String) (n : Nat) :
    Prop where
  sum : ∀ x ∈ entities, counts.sumOver x = n
  names : ∀ group ∈ counts.values, ∀ x ∈ group.keys, x ∈ entities
  positive : ∀ group ∈ counts.values, 0 ∉ group.values

/-- A grouping by the entity first accounts for every match. -/
theorem byOuter_groupBy (hkey : ∀ entity host, (key entity host).1 = entity)
    (hrows : ∀ row ∈ rows, ∀ x, x ∈ row.keys ↔ x ∈ entities) :
    (groupBy key rows).ByOuter entities rows.length where
  sum x hx := by
    have hmeasure := GroupedCounts.measure_tallyAll (·.sumAt x)
      (p := fun pair => x = pair.1) (fun counts pair => by
        simpa using counts.sumAt_tally pair.1 pair.2 x) (groupingPairs key rows) ∅
    rw [groupBy_eq_tallyAll, hmeasure,
      countP_groupingPairs (fun entity host => by rw [hkey]) fun row hrow => (hrows row hrow x).2 hx]
    exact Nat.zero_add _
  names x hx := by
    rw [groupBy_eq_tallyAll] at hx
    obtain ⟨pair, hpair, rfl⟩ := List.mem_map.1 (GroupedCounts.mem_keys_tallyAll hx)
    obtain ⟨row, hrow, entity, hentity, host, rfl⟩ := exists_bound_of_mem_groupingPairs hpair
    rw [hkey]
    exact (hrows row hrow entity).1 hentity
  positive := zero_notMem_groupBy

/-- A grouping by the entity last accounts for every match. -/
theorem byInner_groupBy (hkey : ∀ entity host, (key entity host).2 = entity)
    (hrows : ∀ row ∈ rows, ∀ x, x ∈ row.keys ↔ x ∈ entities) :
    (groupBy key rows).ByInner entities rows.length where
  sum x hx := by
    have hmeasure := GroupedCounts.measure_tallyAll (·.sumOver x)
      (p := fun pair => x = pair.2) (fun counts pair => by
        simpa using counts.sumOver_tally pair.1 pair.2 x) (groupingPairs key rows) ∅
    rw [groupBy_eq_tallyAll, hmeasure,
      countP_groupingPairs (fun entity host => by rw [hkey]) fun row hrow => (hrows row hrow x).2 hx]
    exact Nat.zero_add _
  names group hgroup x hx := by
    obtain ⟨outer, houter⟩ := Dict.exists_get?_of_mem_values hgroup
    obtain ⟨n, hn⟩ := Option.isSome_iff_exists.1 (Dict.mem_keys_iff.1 hx)
    have hat : (groupBy key rows).at? outer x = some n := by
      unfold GroupedCounts.at?
      rw [houter, Option.bind_some, hn]
    rw [groupBy_eq_tallyAll, GroupedCounts.at?_tallyAll] at hat
    obtain ⟨hcount, hpositive⟩ := Option.filter_eq_some_iff.1 hat
    rw [← Option.some.inj hcount, decide_eq_true_eq, List.count_pos_iff] at hpositive
    -- a count stands under a pair of keys that some match has
    obtain ⟨row, hrow, entity, hentity, host, hpair⟩ := exists_bound_of_mem_groupingPairs hpositive
    have hx : entity = x := (hkey entity host).symm.trans (congrArg Prod.snd hpair)
    exact hx ▸ (hrows row hrow entity).1 hentity
  positive := zero_notMem_groupBy

end Grouping

/-! ### Aggregations -/

/-- What is drawn is among the items. -/
theorem mem_of_mem_draw {n : Nat} {gen : StdGen} {items : List α} {item : α}
    (h : item ∈ draw n gen items) : item ∈ items := by
  induction n generalizing gen items with
  | zero => cases h
  | succ n ih =>
    unfold draw at h
    split at h
    next i gen' hi =>
    split at h
    · next first hfirst =>
      rcases List.mem_cons.1 h with rfl | h
      · exact List.mem_of_getElem? hfirst
      · exact List.mem_of_mem_eraseIdx (ih h)
    · cases h

/-- The results of an aggregation account for `n` matches that bind some entities: they list
the matches, or they group them without losing or adding one. -/
def Aggregation.Accounts (a : Aggregation) (entities : List String) (n : Nat)
    (results : AggregatedResults) : Prop :=
  match a with
  | .identity =>
    ∃ rows, results = .listed rows ∧ rows.length = n ∧
      ∀ row ∈ rows, ∀ x, x ∈ row.keys ↔ x ∈ entities
  | .hostVertex => ∃ counts, results = .grouped counts ∧ counts.ByInner entities n
  | .motifVertex => ∃ counts, results = .grouped counts ∧ counts.ByOuter entities n
  | .vertexAttribute _ => ∃ counts, results = .grouped counts ∧ counts.ByOuter entities n
  | .sample _ =>
    ∃ rows, results = .listed rows ∧ ∀ row ∈ rows, ∀ x, x ∈ row.keys ↔ x ∈ entities

/-- Aggregated matches account for the matches, where each binds exactly the entities. -/
theorem Aggregation.accounts_of_apply {a : Aggregation} {seed : Nat} {attributes : Dict Json}
    {rows : List Match} {entities : List String} {results : AggregatedResults}
    (h : a.apply seed attributes rows = .ok results)
    (hrows : ∀ row ∈ rows, ∀ x, x ∈ row.keys ↔ x ∈ entities) :
    a.Accounts entities rows.length results := by
  cases a with
  | identity =>
    cases h
    exact ⟨rows, rfl, rfl, hrows⟩
  | hostVertex =>
    cases h
    exact ⟨_, rfl, byInner_groupBy (fun _ _ => rfl) hrows⟩
  | motifVertex =>
    cases h
    exact ⟨_, rfl, byOuter_groupBy (fun _ _ => rfl) hrows⟩
  | vertexAttribute name =>
    cases h
    exact ⟨_, rfl, byOuter_groupBy (fun _ _ => rfl) hrows⟩
  | sample limit =>
    rw [apply] at h
    split at h
    · cases h
    · cases h
      exact ⟨_, rfl, fun row hrow => hrows row (mem_of_mem_draw hrow)⟩

end MotifQuery
