import MotifQuery.Proofs.Cypher.Rows

/-!
# `MotifQuery.Proofs.Motif.Canonical`: the order of the matches

Read as the tuple of the positions of its vertices, the entities taken in search order, every
match comes after the one listed before it (`Motif.find_ascending`).

The search walks through two kinds of sets: the entities next to an entity, to rank it, and the
vertices next to a bound vertex, to draw candidates from. A `SetOrder` lists each of them in an
order of its own, possibly another one at each visit, and `SetOrder.find` is the search that is
handed the sets in these orders: it only counts in the former and sorts the latter. On a coherent
graph it is the search itself (`SetOrder.find_eq`), so the rows that a limit keeps do not depend
on the order of any set either (`SetOrder.rows_eq`).
-/

set_option autoImplicit false

namespace MotifQuery

/-! ### The tuple of a match -/

namespace Motif

variable {m : Motif} {g : HostGraph}

/-- The positions of the vertices of a match, the entities taken in search order. -/
def tuple (m : Motif) (g : HostGraph) (b : Match) : List Nat :=
  m.searchOrder.filterMap fun x => (b.get? x).bind g.position?

/-- A match holds the positions that the search has bound, in the order of binding. -/
theorem tuple_toMatch (hg : g.Coherent) (hm : m.WellFormed) {a : Assignment}
    (ha : a ∈ m.extensions g m.searchOrder []) : m.tuple g (toMatch g a) = trail a := by
  obtain ⟨hplaced, hkeys⟩ := (mem_extensions_searchOrder_iff hg hm).1 ha
  have horder : m.searchOrder = a.reverse.map Prod.fst := by
    rw [List.map_reverse, hkeys, List.reverse_reverse]
  rw [tuple, horder, List.filterMap_map, trail, ← List.filterMap_eq_map]
  refine List.filterMap_congr fun p hp => ?_
  obtain ⟨id, hid, hposition⟩ := (hplaced.names hg).exists_id (List.mem_reverse.1 hp)
  show ((toMatch g a).get? p.1).bind g.position? = some p.2
  rw [hid, Option.bind_some, hposition]

/-- A match of a parsed motif has a position for every entity. -/
theorem length_tuple (hg : g.Coherent) (hm : m.WellFormed) {b : Match} (hb : b ∈ m.find g) :
    (m.tuple g b).length = m.entities.length := by
  obtain ⟨a, ha, rfl⟩ := List.mem_map.1 hb
  obtain ⟨-, hkeys⟩ := (mem_extensions_searchOrder_iff hg hm).1 ha
  have hlength := congrArg List.length hkeys
  rw [List.length_map, List.length_reverse, m.searchOrder_perm.length_eq] at hlength
  rw [tuple_toMatch hg hm ha, trail, List.length_map, List.length_reverse, hlength]

/-- The tuples of the matches ascend. -/
theorem ascending_tuples (hg : g.Coherent) (hm : m.WellFormed) :
    ((m.find g).map (m.tuple g)).Pairwise (· < ·) := by
  have htuples : (m.find g).map (m.tuple g) = (m.extensions g m.searchOrder []).map trail := by
    rw [find, List.map_map]
    exact List.map_congr_left fun a ha => tuple_toMatch hg hm ha
  rw [htuples, List.pairwise_map]
  exact ascending_extensions hg m.searchOrder

end Motif

/-! ### Searching through sets in any order -/

/-- An order in which each set is listed that a search walks through: the entities next to an
entity, when some are placed, and the vertices next to a bound vertex, from which an entity
draws its candidates. -/
structure SetOrder where
  entities : List String → String → List String → List String
  vertices : Assignment → String → List Nat → List Nat
  entities_perm : ∀ placed x near, (entities placed x near).Perm near
  vertices_perm : ∀ a x near, (vertices a x near).Perm near

namespace SetOrder

variable (o : SetOrder) (m : Motif) (g : HostGraph)

/-- The rank of an entity, counted over the listed neighbours. -/
def rank (placed : List String) (entity : String) : Nat × Nat :=
  let near := o.entities placed entity (m.neighbours entity)
  ((near.filter placed.contains).length, near.length)

/-- The first entity of the highest rank. -/
def best? (placed : List String) : List String → Option String
  | [] => none
  | entity :: rest =>
    match best? placed rest with
    | none => some entity
    | some other =>
      if Motif.rankLess (o.rank m placed entity) (o.rank m placed other) then some other
      else some entity

/-- Places `n` of the remaining entities. -/
def orderFrom : Nat → List String → List String → List String
  | 0, _, _ => []
  | n + 1, placed, remaining =>
    match o.best? m placed remaining with
    | none => []
    | some entity => entity :: orderFrom n (entity :: placed) (remaining.erase entity)

/-- The host vertices to try for an entity: the listed neighbours, sorted. -/
def candidates (a : Assignment) (entity : String) : List Nat :=
  match (m.edges.filter (·.required)).findSome? (Motif.throughEdge? g a entity) with
  | some near => (o.vertices a entity near).mergeSort fun n k => n ≤ k
  | none => List.range g.vertexCount

/-- The extensions of an assignment to the entities still to bind. -/
def extensions : List String → Assignment → List Assignment
  | [], a => [a]
  | entity :: rest, a =>
    (o.candidates m g a entity).flatMap fun n =>
      if m.admissible g a entity n then extensions rest ((entity, n) :: a) else []

/-- The matches that a search finds when it is handed the sets in these orders. -/
def find : List Match :=
  (o.extensions m g (o.orderFrom m m.entities.length [] m.entities) []).map (Motif.toMatch g)

/-- The rows of a query from such a search. -/
def rows (q : CypherQuery) : List Match :=
  CypherQuery.firstOf q.limit ((o.find q.motif g).map q.restrict)

/-- The rank of an entity counts its neighbours in whatever order they are listed. -/
theorem rank_eq (placed : List String) (entity : String) :
    o.rank m placed entity = m.rank placed entity := by
  have hperm := o.entities_perm placed entity (m.neighbours entity)
  exact Prod.ext (hperm.filter placed.contains).length_eq hperm.length_eq

theorem best?_eq (placed remaining : List String) :
    o.best? m placed remaining = m.best? placed remaining := by
  induction remaining with
  | nil => rfl
  | cons entity rest ih =>
    rw [best?, Motif.best?, ih]
    cases m.best? placed rest with
    | none => rfl
    | some other => simp only [rank_eq]

theorem orderFrom_eq (n : Nat) (placed remaining : List String) :
    o.orderFrom m n placed remaining = m.orderFrom n placed remaining := by
  induction n generalizing placed remaining with
  | zero => rfl
  | succ n ih =>
    rw [orderFrom, Motif.orderFrom, best?_eq]
    cases m.best? placed remaining with
    | none => rfl
    | some entity => simp only [ih]

variable {m g}

/-- Sorting undoes the order in which the neighbours of a bound vertex are listed. -/
theorem candidates_eq (hg : g.Coherent) (a : Assignment) (entity : String) :
    o.candidates m g a entity = m.candidates g a entity := by
  have hascending := Motif.ascending_candidates (m := m) (a := a) (x := entity) hg
  unfold Motif.candidates at hascending
  unfold candidates Motif.candidates
  cases hnear : (m.edges.filter (·.required)).findSome? (Motif.throughEdge? g a entity) with
  | none => rfl
  | some near =>
    rw [hnear] at hascending
    have hsorted := @List.pairwise_mergeSort Nat (fun n k => n ≤ k)
      (fun _ _ _ => by simpa using Nat.le_trans) (fun n k => by simpa using Nat.le_total n k)
      (o.vertices a entity near)
    have hperm := (List.mergeSort_perm (o.vertices a entity near) fun n k => decide (n ≤ k)).trans
      (o.vertices_perm a entity near)
    exact hperm.eq_of_pairwise (fun _ _ _ _ hle hge => Nat.le_antisymm hle hge)
      (hsorted.imp of_decide_eq_true) (hascending.imp Nat.le_of_lt)

theorem extensions_eq (hg : g.Coherent) (rest : List String) (a : Assignment) :
    o.extensions m g rest a = m.extensions g rest a := by
  induction rest generalizing a with
  | nil => rfl
  | cons entity rest ih =>
    rw [extensions, Motif.extensions, candidates_eq o hg]
    simp only [ih]

/-- A search finds the same matches in the same order, however its sets are listed. -/
theorem find_eq (hg : g.Coherent) : o.find m g = m.find g := by
  rw [find, orderFrom_eq, extensions_eq o hg]
  rfl

/-- The rows of a query are the same, however the sets are listed. -/
theorem rows_eq (hg : g.Coherent) (q : CypherQuery) : o.rows g q = q.find g := by
  rw [rows, find_eq o hg]
  rfl

end SetOrder

/-! ### The matches in order -/

/-- On a graph built by any calls the tuples of the matches of a parsed motif ascend, and no
listing of the sets that the search walks through changes the matches or the rows of a query. -/
theorem Motif.find_ascending {m : Motif} (hm : Parsed m) (directed : Bool) (ms : List Mention) :
    let g := HostGraph.ofMentions directed ms
    ((m.find g).map (m.tuple g)).Pairwise (· < ·) ∧
      (∀ b ∈ m.find g, (m.tuple g b).length = m.entities.length) ∧
      ((m.find g).map (m.tuple g)).Nodup ∧
      (∀ o : SetOrder, o.find m g = m.find g) ∧
      ∀ q : CypherQuery, q.motif = m → ∀ o : SetOrder, o.rows g q = q.find g := by
  intro g
  have hg : g.Coherent := HostGraph.coherent_ofMentions directed ms
  have hascending := ascending_tuples hg hm.wellFormed
  refine ⟨hascending, fun b hb => length_tuple hg hm.wellFormed hb, ?_,
    fun o => o.find_eq hg, fun q _ o => o.rows_eq hg q⟩
  refine hascending.imp fun hlt heq => ?_
  rw [heq] at hlt
  exact List.lt_irrefl _ hlt

/-- The edges back and forth in this graph are listed by the position of their first end, in
whatever order the graph holds its neighbours. -/
theorem Motif.find_ascending_of_text :
    ∃ m g, parse "B -> A; A -> B" = .ok m ∧
      g = HostGraph.ofMentions true [
        .edge "r" "q" ∅, .edge "q" "r" ∅, .edge "p" "r" ∅, .edge "r" "p" ∅] ∧
      (m.find g).map (m.tuple g) = [[0, 1], [0, 2], [1, 0], [2, 0]] ∧
      ((m.find g).map (m.tuple g)).Pairwise (· < ·) ∧
      ∀ o : SetOrder, o.find m g = m.find g := by
  refine ⟨ofStatements [.edge ⟨"B", "A", true, []⟩, .edge ⟨"A", "B", true, []⟩],
    _, rfl, rfl, by decide +kernel, ?_⟩
  obtain ⟨hascending, -, -, horder, -⟩ := find_ascending
    (.motif (show parse "B -> A; A -> B" = .ok _ from rfl)) true [
      .edge "r" "q" ∅, .edge "q" "r" ∅, .edge "p" "r" ∅, .edge "r" "p" ∅]
  exact ⟨hascending, horder⟩

end MotifQuery
