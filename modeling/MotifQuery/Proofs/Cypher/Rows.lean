import MotifQuery.Proofs.Cypher.Compile
import MotifQuery.Proofs.Cypher.WellFormed
import MotifQuery.Proofs.Motif.Matches

/-!
# `MotifQuery.Proofs.Cypher.Rows`: the rows of a query

The rows of a query are the first matches of its motif, as many as the limit allows, each
restricted to the columns (`find_eq_map_firstOf`). Every match binds every column, so the keys
of a row are the columns (`mem_keys_iff_of_mem_find`), and counting the rows gives their number
(`count_eq_length_find`).
-/

set_option autoImplicit false

namespace MotifQuery.CypherQuery

open Cypher

variable {q : CypherQuery} {g : HostGraph}

/-- The first of the rows, as many as a limit allows. -/
def firstOf {α : Type} (limit : Option Nat) (rows : List α) : List α :=
  match limit with
  | some n => rows.take n
  | none => rows

theorem map_firstOf {α β : Type} (limit : Option Nat) (f : α → β) (rows : List α) :
    (firstOf limit rows).map f = firstOf limit (rows.map f) := by
  cases limit with
  | none => rfl
  | some n => exact List.map_take

/-- The rows are the first matches, restricted to the columns. -/
theorem find_eq_map_firstOf (q : CypherQuery) (g : HostGraph) :
    q.find g = (firstOf q.limit (q.motif.find g)).map
      fun row => row.filter fun entity _ => q.columns.contains entity := by
  rw [map_firstOf]
  rfl

/-- Counting the rows gives their number. -/
theorem count_eq_length_find (q : CypherQuery) (g : HostGraph) :
    q.count g = (q.find g).length := by
  rw [find_eq_map_firstOf, List.length_map]
  unfold count firstOf
  cases q.limit with
  | none => exact q.motif.count_eq_length g
  | some n =>
    dsimp only
    rw [List.length_take, q.motif.count_eq_length g, Nat.min_comm]

/-- The columns of a query that is read are entities of its motif. -/
theorem columns_subset_of_parse {source : String} (h : parse source = .ok q) :
    ∀ x ∈ q.columns, x ∈ q.motif.entities := by
  obtain ⟨ts, -, hq⟩ := exists_tokens_of_parse h
  obtain ⟨paths, cs, hmotif, -, hcolumns⟩ := exists_paths_of_ofTokens hq
  rw [hmotif, entities_foldl_addCondition]
  exact hcolumns

/-- The keys of a row are the columns. -/
theorem mem_keys_iff_of_mem_find (hcolumns : ∀ x ∈ q.columns, x ∈ q.motif.entities) {row : Match}
    (hrow : row ∈ q.find g) (x : String) : x ∈ row.keys ↔ x ∈ q.columns := by
  rw [find_eq_map_firstOf] at hrow
  obtain ⟨whole, hfirst, rfl⟩ := List.mem_map.1 hrow
  have hwhole : whole ∈ q.motif.find g := by
    unfold firstOf at hfirst
    split at hfirst
    · exact List.mem_of_mem_take hfirst
    · exact hfirst
  rw [Dict.mem_keys_filter, Motif.mem_keys_of_mem_find hwhole, List.contains_iff_mem]
  exact ⟨And.right, fun hx => ⟨hcolumns x hx, hx⟩⟩

end MotifQuery.CypherQuery
