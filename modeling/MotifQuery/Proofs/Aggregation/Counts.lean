import MotifQuery.Proofs.Aggregation.Grouping

/-!
# `MotifQuery.Proofs.Aggregation.Counts`: grouped counts are exact

A match binds an entity at most once, so under a pair of keys that tells the entity it is
counted at most once: a count is the number of the matches that have the pair
(`count_groupingPairs`). Counts that are those of a function, with a group only where something
is counted (`GroupedCounts.Exact`), are determined by it (`GroupedCounts.Exact.eq`). Everything
else about grouped results is then about numbers of matches: the order of the matches does not
matter, the counts of two lists add up, and the two groupings by vertex are transposes
(`Aggregation.grouped_counts_exact`).
-/

set_option autoImplicit false

namespace MotifQuery

/-! ### Counts that are those of a function -/

namespace GroupedCounts

variable {counts other : GroupedCounts} {n : String → String → Nat}

/-- The count of a pair of keys, zero where it is absent. -/
def countAt (counts : GroupedCounts) (outer inner : String) : Nat :=
  (counts.at? outer inner).getD 0

/-- A pair of keys is there exactly when `n` is positive for it, with that count, and no group
is empty. -/
structure Exact (counts : GroupedCounts) (n : String → String → Nat) : Prop where
  at?_eq : ∀ outer inner, counts.at? outer inner = (some (n outer inner)).filter (0 < ·)
  inhabited : ∀ outer group, counts.get? outer = some group → group.isEmpty = false

theorem Exact.countAt_eq (h : counts.Exact n) (outer inner : String) :
    counts.countAt outer inner = n outer inner := by
  rw [countAt, h.at?_eq, Option.filter]
  split
  · rfl
  · next hzero =>
    rw [decide_eq_true_eq] at hzero
    exact (Nat.eq_zero_of_not_pos hzero).symm

/-- Where one has a group, so has the other, since the group counts something. -/
theorem Exact.exists_group (h : counts.Exact n) (h' : other.Exact n) {outer : String}
    {group : Dict Nat} (hgroup : counts.get? outer = some group) :
    ∃ group', other.get? outer = some group' := by
  obtain ⟨inner, value, hvalue⟩ := Dict.exists_get?_of_not_isEmpty (h.inhabited outer group hgroup)
  have hat : other.at? outer inner = some value := by
    rw [h'.at?_eq, ← h.at?_eq, at?, hgroup]
    exact hvalue
  obtain ⟨group', hgroup', -⟩ := Option.bind_eq_some_iff.1 hat
  exact ⟨group', hgroup'⟩

/-- Counts are determined by what they count. -/
theorem Exact.eq (h : counts.Exact n) (h' : other.Exact n) : counts = other := by
  refine Dict.ext_get? fun outer => ?_
  cases hgroup : counts.get? outer with
  | none =>
    cases hgroup' : other.get? outer with
    | none => rfl
    | some group' =>
      obtain ⟨group, hsome⟩ := h'.exists_group h hgroup'
      rw [hgroup] at hsome
      cases hsome
  | some group =>
    obtain ⟨group', hgroup'⟩ := h.exists_group h' hgroup
    rw [hgroup']
    refine congrArg some (Dict.ext_get? fun inner => ?_)
    have hat := (h.at?_eq outer inner).trans (h'.at?_eq outer inner).symm
    rw [at?, at?, hgroup, hgroup'] at hat
    exact hat

/-- A tally leaves no group empty. -/
theorem inhabited_tally (h : ∀ x group, counts.get? x = some group → group.isEmpty = false)
    (outer inner x : String) {group : Dict Nat}
    (hgroup : (counts.tally outer inner).get? x = some group) : group.isEmpty = false := by
  rw [tally, Dict.get?_update] at hgroup
  split at hgroup
  · cases hgroup
    rw [Bool.eq_false_iff]
    intro hempty
    have hnone := Dict.get?_eq_none_of_isEmpty hempty inner
    rw [Dict.get?_update, if_pos rfl] at hnone
    cases hnone
  · exact h x group hgroup

/-- A row of tallies counts how often each pair comes. -/
theorem exact_tallyAll (pairs : List (String × String)) :
    (tallyAll (∅ : Dict (Dict Nat)) pairs).Exact fun outer inner => pairs.count (outer, inner) where
  at?_eq := at?_tallyAll pairs
  inhabited := by
    induction pairs using List.reverseRecOn with
    | nil =>
      intro outer group hgroup
      cases hgroup
    | append_singleton rest pair ih =>
      intro outer group hgroup
      unfold tallyAll at ih hgroup
      rw [List.foldl_concat] at hgroup
      exact inhabited_tally ih pair.1 pair.2 outer hgroup

end GroupedCounts

/-! ### A match is counted once -/

section Matches

variable {key : String → String → String × String} {rows : List Match} {pair : String × String}
  {entity : String}

/-- Of entries whose keys do not repeat at most one counts for a condition that tells the key. -/
theorem countP_entries {α : Type} {entries : List (String × α)}
    (hnodup : (entries.map Prod.fst).Nodup) {p : String × α → Bool} {name : String}
    (hp : ∀ entry, p entry = true → entry.1 = name) :
    entries.countP p
      = if (lookupEntry name entries).any (fun value => p (name, value)) then 1 else 0 := by
  induction entries with
  | nil => rfl
  | cons first rest ih =>
    obtain ⟨hfirst, hrest⟩ := List.nodup_cons.1 hnodup
    rw [List.countP_cons, ih hrest, lookupEntry]
    by_cases hname : name = first.1
    · subst hname
      rw [lookupEntry_eq_none_iff.2 hfirst, if_pos rfl]
      simp
    · have hfalse : p first = false := Bool.eq_false_iff.2 fun htrue => hname (hp first htrue).symm
      rw [hfalse, if_neg hname]
      simp

/-- Where a pair of keys tells the entity, its count is the number of the matches that bind the
entity to a host vertex with the pair. -/
theorem count_groupingPairs (hkey : ∀ e host, key e host = pair → e = entity) :
    (groupingPairs key rows).count pair
      = rows.countP fun row => (row.get? entity).any fun host => key entity host == pair := by
  induction rows with
  | nil => rfl
  | cons row rest ih =>
    have hrow : (row.entries.map fun bound => key bound.1 bound.2).count pair
        = if (row.get? entity).any (fun host => key entity host == pair) then 1 else 0 := by
      rw [List.count_eq_countP, List.countP_map]
      exact countP_entries row.nodup_keys fun bound hbound => hkey _ _ (beq_iff_eq.1 hbound)
    have hcons : groupingPairs key (row :: rest)
        = (row.entries.map fun bound => key bound.1 bound.2) ++ groupingPairs key rest := rfl
    rw [hcons, List.count_append, hrow, ih, List.countP_cons, Nat.add_comm]

/-- A grouping by keys that tell the entity counts matches. -/
theorem exact_groupBy {entityOf : String × String → String}
    (hkey : ∀ entity host, entityOf (key entity host) = entity) (rows : List Match) :
    (groupBy key rows).Exact fun outer inner => rows.countP fun row =>
      (row.get? (entityOf (outer, inner))).any fun host =>
        key (entityOf (outer, inner)) host == (outer, inner) := by
  have hexact := GroupedCounts.exact_tallyAll (groupingPairs key rows)
  rw [groupBy_eq_tallyAll]
  refine ⟨fun outer inner => ?_, hexact.inhabited⟩
  rw [hexact.at?_eq, count_groupingPairs fun e host h =>
    (hkey e host).symm.trans (congrArg entityOf h)]

end Matches

/-! ### Aggregations -/

namespace Aggregation

/-- The aggregations that group. -/
def IsGrouping : Aggregation → Prop
  | hostVertex | motifVertex | vertexAttribute _ => True
  | identity | sample _ => False

/-- Does a match count under a pair of keys? -/
def counts (a : Aggregation) (attributes : Dict Json) (outer inner : String) (row : Match) :
    Bool :=
  match a with
  | hostVertex => row.get? inner == some outer
  | motifVertex => row.get? outer == some inner
  | vertexAttribute _ =>
    (row.get? outer).map (fun host => attributeKey (attributes.get? host)) == some inner
  | identity | sample _ => false

variable {a : Aggregation} {attributes : Dict Json} {rows others : List Match} {seed : Nat}

/-- A grouping gives for every pair of keys the number of the matches that have it. -/
theorem IsGrouping.exists_exact (h : a.IsGrouping) (seed : Nat) (attributes : Dict Json)
    (rows : List Match) : ∃ counts, a.apply seed attributes rows = .ok (.grouped counts) ∧
      counts.Exact fun outer inner => rows.countP (a.counts attributes outer inner) := by
  -- the groupings differ in the pair of keys, and in the place of the entity in it
  have hcount : ∀ (key : String → String → String × String) (entityOf : String × String → String),
      (∀ entity host, entityOf (key entity host) = entity) →
      (∀ outer inner (row : Match), ((row.get? (entityOf (outer, inner))).any fun host =>
        key (entityOf (outer, inner)) host == (outer, inner)) = a.counts attributes outer inner row) →
      (groupBy key rows).Exact fun outer inner => rows.countP (a.counts attributes outer inner) := by
    intro key entityOf hkey hcounts
    have hexact := exact_groupBy hkey rows
    simp only [hcounts] at hexact
    exact hexact
  cases a with
  | hostVertex =>
    refine ⟨_, rfl, hcount _ Prod.snd (fun _ _ => rfl) fun outer inner row => ?_⟩
    cases hrow : row.get? inner <;> simp [counts, hrow]
  | motifVertex =>
    refine ⟨_, rfl, hcount _ Prod.fst (fun _ _ => rfl) fun outer inner row => ?_⟩
    cases hrow : row.get? outer <;> simp [counts, hrow]
  | vertexAttribute name =>
    refine ⟨_, rfl, hcount _ Prod.fst (fun _ _ => rfl) fun outer inner row => ?_⟩
    cases hrow : row.get? outer <;> simp [counts, hrow]
  | identity => cases h
  | sample limit => cases h

/-- The order of the matches makes no difference to a grouping. -/
theorem IsGrouping.apply_perm (h : a.IsGrouping) (hperm : rows.Perm others) :
    a.apply seed attributes others = a.apply seed attributes rows := by
  obtain ⟨first, hfirst, hexact⟩ := h.exists_exact seed attributes rows
  obtain ⟨second, hsecond, hexact'⟩ := h.exists_exact seed attributes others
  simp only [← hperm.countP_eq] at hexact'
  rw [hfirst, hsecond, hexact.eq hexact']

/-- The counts of two lists of matches add up to those of both together. -/
theorem IsGrouping.apply_append (h : a.IsGrouping) (seed : Nat) (attributes : Dict Json)
    (rows others : List Match) : ∃ first second both,
      a.apply seed attributes rows = .ok (.grouped first) ∧
      a.apply seed attributes others = .ok (.grouped second) ∧
      a.apply seed attributes (rows ++ others) = .ok (.grouped both) ∧
      both.Exact fun outer inner => first.countAt outer inner + second.countAt outer inner := by
  obtain ⟨first, hfirst, hexact⟩ := h.exists_exact seed attributes rows
  obtain ⟨second, hsecond, hexact'⟩ := h.exists_exact seed attributes others
  obtain ⟨both, hboth, hexact''⟩ := h.exists_exact seed attributes (rows ++ others)
  refine ⟨first, second, both, hfirst, hsecond, hboth, ?_⟩
  simp only [hexact.countAt_eq, hexact'.countAt_eq, ← List.countP_append]
  exact hexact''

/-- Grouping counts exactly: by host vertex and by entity, which are transposes, the matches that
bind the entity to the host vertex, and by attribute the matches in which the host vertex of the
entity has the key. What is not counted is absent, and no group is empty. So a grouping depends
neither on the order of the matches nor on how they are split up. -/
theorem grouped_counts_exact (seed : Nat) (attributes : Dict Json) (rows : List Match) :
    (∃ byHost byEntity,
      hostVertex.apply seed attributes rows = .ok (.grouped byHost) ∧
      motifVertex.apply seed attributes rows = .ok (.grouped byEntity) ∧
      (byHost.Exact fun host entity => rows.countP fun row => row.get? entity == some host) ∧
      (byEntity.Exact fun entity host => rows.countP fun row => row.get? entity == some host) ∧
      ∀ entity host, byEntity.at? entity host = byHost.at? host entity) ∧
    (∀ name, ∃ byValue, (vertexAttribute name).apply seed attributes rows = .ok (.grouped byValue) ∧
      byValue.Exact fun entity key => rows.countP fun row =>
        (row.get? entity).map (fun host => attributeKey (attributes.get? host)) == some key) ∧
    ∀ a : Aggregation, a.IsGrouping → ∀ others : List Match,
      (rows.Perm others → a.apply seed attributes others = a.apply seed attributes rows) ∧
      ∃ first second both,
        a.apply seed attributes rows = .ok (.grouped first) ∧
        a.apply seed attributes others = .ok (.grouped second) ∧
        a.apply seed attributes (rows ++ others) = .ok (.grouped both) ∧
        both.Exact fun outer inner => first.countAt outer inner + second.countAt outer inner := by
  refine ⟨?_, fun name => ?_, fun a ha others => ?_⟩
  · obtain ⟨byHost, hhost, hexact⟩ :=
      IsGrouping.exists_exact (a := hostVertex) trivial seed attributes rows
    obtain ⟨byEntity, hentity, hexact'⟩ :=
      IsGrouping.exists_exact (a := motifVertex) trivial seed attributes rows
    refine ⟨byHost, byEntity, hhost, hentity, hexact, hexact', fun entity host => ?_⟩
    rw [hexact.at?_eq, hexact'.at?_eq]
    rfl
  · exact IsGrouping.exists_exact (a := vertexAttribute name) trivial seed attributes rows
  · exact ⟨ha.apply_perm, ha.apply_append seed attributes rows others⟩

/-- Two matches in either order, with one host vertex in two places. -/
theorem grouped_counts_exact_of_shared_vertex :
    let rows : List Match :=
      [.ofList [("A", "x"), ("B", "y")], .ofList [("A", "z"), ("B", "x")]]
    hostVertex.apply 0 ∅ rows.reverse = hostVertex.apply 0 ∅ rows := by
  intro rows
  have hgrouped := (grouped_counts_exact 0 ∅ rows).2.2 hostVertex trivial rows.reverse
  exact hgrouped.1 rows.reverse_perm.symm

end Aggregation

end MotifQuery
