import MotifQuery.Graph.Schema
import MotifQuery.Proofs.Dict

/-!
# `MotifQuery.Proofs.Graph.Columns`: schemas and columns

The column of an attribute is the row of its values, over all vertices or over all edges.
`get?_ofAttributes` says that a schema holds the type of every column that is not empty. A column
has a type when all its values have it (`columnType_eq_some_iff`); it is open when two of them
differ or one has none (`columnType_eq_open_iff`).
-/

set_option autoImplicit false

namespace MotifQuery

/-- The values of an attribute in a list of attribute dictionaries, in order. -/
def column (bags : List Attributes) (name : String) : List Json :=
  bags.filterMap fun bag => bag.get? name

/-- The value of an entry at a key. -/
def valueAt? (name : String) (entry : String × Json) : Option Json :=
  if name = entry.1 then some entry.2 else none

namespace Schema

/-- The type of a column, open when two values differ in type; an empty column is in no
schema. -/
def columnType : List Json → Option (Option ValueType)
  | [] => none
  | value :: rest =>
    some (if rest.all fun other => ValueType.of? other == ValueType.of? value then
      ValueType.of? value else none)

/-- The type of an attribute after one more value. -/
def typeAfter (known : Option (Option ValueType)) (value : Json) : Option ValueType :=
  known.elim (ValueType.of? value) fun current =>
    if current = ValueType.of? value then current else none

theorem columnType_concat (values : List Json) (value : Json) :
    columnType (values ++ [value]) = some (typeAfter (columnType values) value) := by
  cases values with
  | nil => rfl
  | cons first rest =>
    rw [List.cons_append]
    simp only [columnType, typeAfter, List.all_append, List.all_cons, List.all_nil, Bool.and_true,
      Option.elim_some]
    congr 1
    -- a type that is open stays open
    cases rest.all fun other => ValueType.of? other == ValueType.of? first with
    | false =>
      rw [Bool.false_and, if_neg Bool.false_ne_true]
      exact (ite_self none).symm
    | true =>
      simp only [Bool.true_and, beq_iff_eq, if_true]
      by_cases hsame : ValueType.of? value = ValueType.of? first
      · rw [if_pos hsame, if_pos hsame.symm]
      · rw [if_neg hsame, if_neg (Ne.symm hsame)]

/-- A column has a type when it is not empty and all its values have that type. -/
theorem columnType_eq_some_iff {values : List Json} {type : ValueType} :
    columnType values = some (some type)
      ↔ values ≠ [] ∧ ∀ value ∈ values, ValueType.of? value = some type := by
  cases values with
  | nil => simp [columnType]
  | cons first rest =>
    have hne : first :: rest ≠ [] := List.cons_ne_nil first rest
    simp only [columnType, Option.some_inj, List.forall_mem_cons]
    constructor
    · intro h
      split at h
      · next hall =>
        refine ⟨hne, h, fun other hother => ?_⟩
        rw [beq_iff_eq.1 (List.all_eq_true.1 hall other hother), h]
      · cases h
    · rintro ⟨-, hfirst, hrest⟩
      rw [if_pos, hfirst]
      refine List.all_eq_true.2 fun other hother => ?_
      rw [hrest other hother, hfirst, beq_self_eq_true]

/-- A column is open when a value has no type or two values differ in type. -/
theorem columnType_eq_open_iff {values : List Json} :
    columnType values = some none ↔ (∃ value ∈ values, ValueType.of? value = none) ∨
      ∃ value ∈ values, ∃ other ∈ values, ValueType.of? value ≠ ValueType.of? other := by
  cases values with
  | nil => simp [columnType]
  | cons first rest =>
    simp only [columnType, Option.some_inj]
    constructor
    · intro h
      split at h
      · exact .inl ⟨first, List.mem_cons_self, h⟩
      · next hall =>
        rw [List.all_eq_true] at hall
        push Not at hall
        obtain ⟨value, hvalue, hne⟩ := hall
        refine .inr ⟨value, List.mem_cons_of_mem _ hvalue, first, List.mem_cons_self, ?_⟩
        rwa [Ne, beq_iff_eq] at hne
    · intro h
      split
      · next hall =>
        -- all values have the type of the first one
        have hsame : ∀ value ∈ first :: rest, ValueType.of? value = ValueType.of? first := by
          refine List.forall_mem_cons.2 ⟨rfl, fun value hvalue => ?_⟩
          exact beq_iff_eq.1 (List.all_eq_true.1 hall value hvalue)
        rcases h with ⟨value, hvalue, htype⟩ | ⟨value, hvalue, more, hmore, hne⟩
        · rw [← hsame value hvalue, htype]
        · exact absurd ((hsame value hvalue).trans (hsame more hmore).symm) hne
      · rfl

theorem isSome_columnType {values : List Json} {value : Json} (h : value ∈ values) :
    (columnType values).isSome = true := by
  cases values with
  | nil => cases h
  | cons first rest => rfl

theorem get?_observe (schema : Schema) (name other : String) (value : Json) :
    (schema.observe name value).get? other
      = if other = name then some (typeAfter (schema.get? name) value) else schema.get? other := by
  unfold observe
  dsimp only
  cases hname : schema.get? name with
  | none => exact Dict.get?_insert schema name other _
  | some current =>
    dsimp only
    show _ = if other = name then
      some (if current = ValueType.of? value then current else none) else schema.get? other
    split
    · split
      · next hother => rw [hother, hname]
      · rfl
    · exact Dict.get?_insert schema name other _

/-- Observing entries one after the other types the values at each name. -/
theorem get?_foldl_observe (entries : List (String × Json)) (name : String) :
    Dict.get? (entries.foldl (fun schema e => observe schema e.1 e.2) ∅) name
      = columnType (entries.filterMap (valueAt? name)) := by
  induction entries using List.reverseRecOn with
  | nil => rfl
  | append_singleton rest last ih =>
    rw [List.foldl_concat, get?_observe, List.filterMap_append]
    -- only a value of the name itself counts
    by_cases hname : name = last.1
    · have hlast : [last].filterMap (valueAt? name) = [last.2] := by
        rw [List.filterMap_cons, valueAt?, if_pos hname]
        rfl
      rw [if_pos hname, hlast, columnType_concat, ← ih, hname]
    · have hlast : [last].filterMap (valueAt? name) = [] := by
        rw [List.filterMap_cons, valueAt?, if_neg hname]
        rfl
      rw [if_neg hname, hlast, List.append_nil, ih]

end Schema

/-- A dictionary has at most one entry at a key. -/
theorem Dict.filterMap_entries (d : Attributes) (name : String) :
    d.entries.filterMap (valueAt? name) = (d.get? name).toList := by
  have hnodup : (d.entries.map Prod.fst).Nodup := d.nodup_keys
  unfold Dict.get?
  revert hnodup
  induction d.entries with
  | nil => exact fun _ => rfl
  | cons first rest ih =>
    intro hnodup
    obtain ⟨hfirst, hrest⟩ := List.nodup_cons.1 hnodup
    rw [List.filterMap_cons, valueAt?, lookupEntry]
    by_cases hname : name = first.1
    · subst hname
      rw [if_pos rfl, if_pos rfl]
      -- the key stands in no later entry
      have hnone : rest.filterMap (valueAt? first.1) = [] := by
        rw [List.filterMap_eq_nil_iff]
        intro entry hentry
        refine if_neg fun heq => hfirst ?_
        exact heq ▸ List.mem_map_of_mem hentry
      rw [hnone]
      rfl
    · rw [if_neg hname, if_neg hname]
      exact ih hrest

theorem column_eq (bags : List Attributes) (name : String) :
    column bags name = (bags.flatMap Dict.entries).filterMap (valueAt? name) := by
  induction bags with
  | nil => rfl
  | cons bag rest ih =>
    rw [List.flatMap_cons, List.filterMap_append, Dict.filterMap_entries, ← ih, column,
      List.filterMap_cons]
    cases bag.get? name <;> rfl

/-- A schema holds the types of the columns. -/
theorem Schema.get?_ofAttributes (bags : List Attributes) (name : String) :
    (Schema.ofAttributes bags).get? name = Schema.columnType (column bags name) := by
  rw [column_eq, ← Schema.get?_foldl_observe, List.foldl_flatMap]
  rfl

theorem mem_column {bags : List Attributes} {bag : Attributes} (hbag : bag ∈ bags)
    {name : String} {value : Json} (h : bag.get? name = some value) :
    value ∈ column bags name :=
  List.mem_filterMap.2 ⟨bag, hbag, h⟩

/-- The attribute dictionaries of the vertices or of the edges, in order. -/
def HostGraph.bags (g : HostGraph) : GraphPart → List Attributes
  | .vertices => g.vertices.toList.map (·.attributes)
  | .edges => g.edges.toList.map (·.attributes)

theorem HostGraph.schema_eq (g : HostGraph) (part : GraphPart) :
    g.schema part = Schema.ofAttributes (g.bags part) := by
  cases part <;> rfl

end MotifQuery
