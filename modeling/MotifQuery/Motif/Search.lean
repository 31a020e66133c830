import MotifQuery.Motif.Basic

/-!
# `MotifQuery.Motif.Search`: matches of a motif in a host graph

A match binds every entity to a host vertex of its own so that all constraints hold, all
required edges are present and all forbidden ones are absent. `find` lists the matches by
backtracking over the entities in `searchOrder`, which keeps each entity next to an
earlier one where that is possible: an entity with a bound neighbour draws its candidates
from the neighbours of that host vertex, any other from all host vertices, both in the
order of the host. `count` counts the same matches without listing them, and `spend`
follows the same search within a number of steps.
-/

set_option autoImplicit false

namespace MotifQuery

/-- A binding of entities to host vertex ids. -/
abbrev Match := Dict String

/-- Bound entities with the positions of their host vertices, the latest first. -/
abbrev Assignment := List (String × Nat)

namespace Motif

/-- The entities joined to an entity by a required edge. -/
def neighbours (m : Motif) (entity : String) : List String :=
  ((m.edges.filter (·.required)).flatMap fun e =>
    (if e.source = entity then [e.target] else []) ++
      (if e.target = entity then [e.source] else [])).eraseDups

/-- What makes an entity a good next one: first its links to placed entities, then its
number of neighbours. -/
def rank (m : Motif) (placed : List String) (entity : String) : Nat × Nat :=
  let near := m.neighbours entity
  ((near.filter placed.contains).length, near.length)

/-- Is the first rank below the second? -/
def rankLess (a b : Nat × Nat) : Bool :=
  a.1 < b.1 || (a.1 == b.1 && a.2 < b.2)

/-- The first entity of the highest rank. -/
def best? (m : Motif) (placed : List String) : List String → Option String
  | [] => none
  | entity :: rest =>
    match best? m placed rest with
    | none => some entity
    | some other =>
      -- of equal ranks the earlier entity wins
      if rankLess (m.rank placed entity) (m.rank placed other) then some other else some entity

/-- Places `n` of the remaining entities. -/
def orderFrom (m : Motif) : Nat → List String → List String → List String
  | 0, _, _ => []
  | n + 1, placed, remaining =>
    match m.best? placed remaining with
    | none => []
    | some entity => entity :: m.orderFrom n (entity :: placed) (remaining.erase entity)

/-- The entities in the order of the search. -/
def searchOrder (m : Motif) : List String :=
  m.orderFrom m.entities.length [] m.entities

/-- The host vertices next to the bound end of an edge whose other end is `entity`. -/
def throughEdge? (g : HostGraph) (a : Assignment) (entity : String) (e : MotifEdge) :
    Option (List Nat) :=
  if e.target = entity then (a.lookup e.source).map g.successors
  else if e.source = entity then (a.lookup e.target).map g.predecessors
  else none

/-- The host vertices to try for an entity. -/
def candidates (m : Motif) (g : HostGraph) (a : Assignment) (entity : String) : List Nat :=
  match (m.edges.filter (·.required)).findSome? (throughEdge? g a entity) with
  -- only the first such edge matters here; `admissible` checks the others
  | some near => near
  | none => List.range g.vertexCount

/-- Is the edge, when both its ends are bound, present as required or absent as
forbidden? -/
def edgeHolds (g : HostGraph) (a : Assignment) (e : MotifEdge) : Bool :=
  match a.lookup e.source, a.lookup e.target with
  -- a host edge that breaks the constraints counts as absent
  | some s, some t => ((g.edgeBetween? s t).any fun he => e.admits he.attributes) == e.required
  -- an edge with a free end is checked when that end is bound
  | _, _ => true

/-- May the entity be bound to the host vertex at a position, after the others? -/
def admissible (m : Motif) (g : HostGraph) (a : Assignment) (entity : String) (n : Nat) :
    Bool :=
  !(a.any fun bound => bound.2 == n) &&
    ((g.vertices[n]?).any fun v =>
      (m.constraintsOn entity).all fun c => c.satisfiedBy v.attributes) &&
    m.edges.all fun e => !e.touches entity || edgeHolds g ((entity, n) :: a) e

/-- The extensions of an assignment to the entities still to bind. -/
def extensions (m : Motif) (g : HostGraph) : List String → Assignment → List Assignment
  | [], a => [a]
  | entity :: rest, a =>
    (m.candidates g a entity).flatMap fun n =>
      if m.admissible g a entity n then m.extensions g rest ((entity, n) :: a) else []

/-- The number of extensions of an assignment. -/
def countExtensions (m : Motif) (g : HostGraph) : List String → Assignment → Nat
  | [], _ => 1
  | entity :: rest, a =>
    (m.candidates g a entity).foldl
      (fun total n =>
        if m.admissible g a entity n then
          total + m.countExtensions g rest ((entity, n) :: a)
        else total)
      0

/-- The match of an assignment. -/
def toMatch (g : HostGraph) (a : Assignment) : Match :=
  Dict.ofList (a.filterMap fun (entity, n) => (g.vertices[n]?).map fun v => (entity, v.id))

/-- All matches in the order of the search. -/
def find (m : Motif) (g : HostGraph) : List Match :=
  (m.extensions g m.searchOrder []).map (toMatch g)

/-- The number of matches. -/
def count (m : Motif) (g : HostGraph) : Nat :=
  m.countExtensions g m.searchOrder []

/-- What a search with `steps` steps to spend leaves over; every candidate looked at is a
step. -/
def spend (m : Motif) (g : HostGraph) : List String → Assignment → Nat → Option Nat
  | [], _, steps => some steps
  | entity :: rest, a, steps =>
    (m.candidates g a entity).foldlM
      (fun steps n =>
        match steps with
        | 0 => none
        | steps + 1 =>
          if m.admissible g a entity n then m.spend g rest ((entity, n) :: a) steps
          else some steps)
      steps

/-- Does the search end within a number of steps? -/
def endsWithin (m : Motif) (g : HostGraph) (steps : Nat) : Bool :=
  (m.spend g m.searchOrder [] steps).isSome

end Motif

end MotifQuery
