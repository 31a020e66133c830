import MotifQuery.Json.Basic
import MotifQuery.Number.Integer
import Std.Data.ExtTreeMap

/-!
# `MotifQuery.Graph.Basic`: host graphs

A host graph is a simple graph with string vertex ids and JSON attributes. Vertices and
edges are listed in the order of first mention. Mentioning a vertex or an edge again
merges its attributes, the last value written stays. An undirected graph joins two
vertices at most once, whichever end is named first.

Beside the two lists the graph keeps the position of every vertex id, the position of
every edge by its key, and for every vertex the ascending positions of its successors and
of its predecessors. `addVertex` and `addEdge` keep all of them in step.
-/

set_option autoImplicit false

namespace MotifQuery

/-- The attributes of a vertex or an edge. -/
abbrev Attributes := Dict Json

/-- The attribute that holds labels and relationship types. -/
def labelsAttribute : String := "__labels__"

/-- A vertex of a host graph. -/
structure Vertex where
  id : String
  attributes : Attributes := ∅
deriving DecidableEq

/-- An edge between two vertex ids. -/
structure Edge where
  source : String
  target : String
  attributes : Attributes := ∅
deriving DecidableEq

/-- The order of pairs of positions, the first place before the second. -/
def pairOrder (a b : Nat × Nat) : Ordering :=
  lexOrd.compare a b

instance : Std.TransCmp pairOrder :=
  inferInstanceAs (Std.TransCmp (lexOrd (α := Nat) (β := Nat)).compare)

instance : Std.LawfulEqCmp pairOrder :=
  inferInstanceAs (Std.LawfulEqCmp (lexOrd (α := Nat) (β := Nat)).compare)

/-- Puts a position into an ascending list without repeats. -/
def insertPosition (n : Nat) : List Nat → List Nat
  | [] => [n]
  | m :: rest =>
    if n < m then n :: m :: rest
    else if n = m then m :: rest
    else m :: insertPosition n rest

/-- A host graph. -/
structure HostGraph where
  directed : Bool
  vertices : Array Vertex := #[]
  edges : Array Edge := #[]
  /-- The position of every vertex id. -/
  vertexIndex : Std.ExtTreeMap String Nat := ∅
  /-- The position of every edge by its key. -/
  edgeIndex : Std.ExtTreeMap (Nat × Nat) Nat pairOrder := ∅
  /-- For every vertex the positions that an edge leads to. -/
  outgoing : Array (List Nat) := #[]
  /-- For every vertex the positions that an edge comes from. -/
  incoming : Array (List Nat) := #[]

namespace HostGraph

/-- The graph without vertices. -/
def empty (directed : Bool) : HostGraph :=
  { directed }

instance : Inhabited HostGraph := ⟨empty false⟩

/-- The number of vertices. -/
def vertexCount (g : HostGraph) : Nat :=
  g.vertices.size

/-- The number of edges. -/
def edgeCount (g : HostGraph) : Nat :=
  g.edges.size

/-- The position of a vertex id. -/
def position? (g : HostGraph) (id : String) : Option Nat :=
  g.vertexIndex[id]?

/-- The vertex with an id. -/
def vertex? (g : HostGraph) (id : String) : Option Vertex :=
  (g.position? id).bind fun n => g.vertices[n]?

/-- The positions that an edge from `n` leads to, ascending. -/
def successors (g : HostGraph) (n : Nat) : List Nat :=
  (g.outgoing[n]?).getD []

/-- The positions that an edge to `n` comes from, ascending. -/
def predecessors (g : HostGraph) (n : Nat) : List Nat :=
  (g.incoming[n]?).getD []

/-- The key of the edge from `s` to `t`: in an undirected graph the lower end comes
first. -/
def edgeKey (g : HostGraph) (s t : Nat) : Nat × Nat :=
  if g.directed || s ≤ t then (s, t) else (t, s)

/-- The edge from `s` to `t`; in an undirected graph in either direction. -/
def edgeBetween? (g : HostGraph) (s t : Nat) : Option Edge :=
  if (g.successors s).contains t then (g.edgeIndex[g.edgeKey s t]?).bind fun n => g.edges[n]?
  else none

/-- Adds a vertex, or merges the attributes into the vertex with that id. -/
def addVertex (g : HostGraph) (id : String) (attributes : Attributes) : HostGraph :=
  match g.position? id with
  | some n =>
    { g with
      vertices := g.vertices.modify n fun v =>
        { v with attributes := v.attributes.merge attributes } }
  | none =>
    { g with
      vertices := g.vertices.push { id, attributes }
      vertexIndex := g.vertexIndex.insert id g.vertices.size
      outgoing := g.outgoing.push []
      incoming := g.incoming.push [] }

/-- Notes that an edge leads from `s` to `t`. -/
def join (g : HostGraph) (s t : Nat) : HostGraph :=
  { g with
    outgoing := g.outgoing.modify s (insertPosition t)
    incoming := g.incoming.modify t (insertPosition s) }

/-- Adds an edge between two positions, or merges the attributes into the edge there. -/
def addEdgeAt (g : HostGraph) (s t : Nat) (edge : Edge) : HostGraph :=
  let key := g.edgeKey s t
  match g.edgeIndex[key]? with
  | some n =>
    { g with
      edges := g.edges.modify n fun e =>
        { e with attributes := e.attributes.merge edge.attributes } }
  | none =>
    let g := { g with
      edges := g.edges.push edge
      edgeIndex := g.edgeIndex.insert key g.edges.size }
    let g := g.join s t
    -- an undirected edge leads both ways
    if g.directed then g else g.join t s

/-- Adds an edge and the ends that are missing, or merges the attributes into the edge
that joins them already. -/
def addEdge (g : HostGraph) (source target : String) (attributes : Attributes) : HostGraph :=
  let g := (g.addVertex source ∅).addVertex target ∅
  match g.position? source, g.position? target with
  | some s, some t => g.addEdgeAt s t { source, target, attributes }
  -- both ends were added just now, so this is not reached
  | _, _ => g

/-- The graph built from lists of vertices and edges, in order. -/
def ofParts (directed : Bool) (vertices : List Vertex) (edges : List Edge) : HostGraph :=
  let g := vertices.foldl (fun g v => g.addVertex v.id v.attributes) (empty directed)
  edges.foldl (fun g e => g.addEdge e.source e.target e.attributes) g

/-- The complete graph on the vertices `0`, …, `n - 1`. -/
def complete (n : Nat) (directed : Bool) : HostGraph :=
  let ids := List.range n
  let g := ids.foldl (fun g i => g.addVertex (Number.natText i) ∅) (empty directed)
  ids.foldl
    (fun g i =>
      ids.foldl
        (fun g j =>
          if i ≠ j ∧ (directed = true ∨ i < j) then
            g.addEdge (Number.natText i) (Number.natText j) ∅
          else g)
        g)
    g

/-- The value of an attribute for every vertex that carries it. -/
def attributeValues (g : HostGraph) (name : String) : Dict Json :=
  Dict.ofList (g.vertices.toList.filterMap fun v =>
    (v.attributes.get? name).map fun value => (v.id, value))

end HostGraph

end MotifQuery
