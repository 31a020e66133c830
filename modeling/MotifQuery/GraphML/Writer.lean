import MotifQuery.Failure
import MotifQuery.Graph.Schema
import MotifQuery.Json.Printer
import MotifQuery.Xml.Writer

/-!
# `MotifQuery.GraphML.Writer`: graphs as GraphML

A graph is written as one row of events: a `key` element for every attribute of the
vertices and of the edges, with the type of its schema, then the vertices and the edges in
order. An attribute whose type is open is declared a string. A string value is written as
it is, any other value as JSON text.
-/

set_option autoImplicit false

namespace MotifQuery.GraphML

/-- The type that a `key` element declares. -/
def typeName : Option ValueType → String
  | some .int => "long"
  | some .float => "double"
  | some .bool => "boolean"
  | some .str | none => "string"

/-- The ids and types of the keys for a schema, in the order of the attribute names. -/
def keyTable (schema : Schema) (stem : String) : List (String × String × String) :=
  schema.entries.zipIdx.map fun (entry, i) =>
    (entry.1, stem ++ Number.natText i, typeName entry.2)

/-- The `key` elements of a table. -/
def keyEvents (domain : String) (table : List (String × String × String)) :
    List Xml.Event :=
  table.map fun (name, id, type) =>
    .standing "key" (some [("id", id), ("for", domain), ("attr.name", name),
      ("attr.type", type)])

/-- The text of a value. -/
def valueText : Json → String
  | .str s => s
  | value => value.compact

/-- The events of an attribute. -/
def datumEvents (table : List (String × String × String)) (entry : String × Json) :
    List Xml.Event :=
  match table.lookup entry.1 with
  | some (id, _) =>
    [.opening "data" (some [("key", id)]), .text (some (valueText entry.2)), .closing "data"]
  -- every attribute has a key, since the schema is that of the graph
  | none => []

/-- The events of a node or an edge. -/
def elementEvents (table : List (String × String × String)) (name : String)
    (tag : List (String × String)) (attributes : Attributes) : List Xml.Event :=
  if attributes.isEmpty then [.standing name (some tag)]
  else
    .opening name (some tag) :: attributes.entries.flatMap (datumEvents table) ++
      [.closing name]

/-- The events of a graph. -/
def events (g : HostGraph) : List Xml.Event :=
  let vertexKeys := keyTable g.vertexSchema "n"
  let edgeKeys := keyTable g.edgeSchema "e"
  [.declaration,
    .opening "graphml" (some [("xmlns", "http://graphml.graphdrawing.org/xmlns")])]
    ++ keyEvents "node" vertexKeys ++ keyEvents "edge" edgeKeys
    ++ [.opening "graph"
      (some [("edgedefault", if g.directed then "directed" else "undirected")])]
    ++ g.vertices.toList.flatMap (fun v =>
      elementEvents vertexKeys "node" [("id", v.id)] v.attributes)
    ++ g.edges.toList.flatMap (fun e =>
      elementEvents edgeKeys "edge" [("source", e.source), ("target", e.target)] e.attributes)
    ++ [.closing "graph", .closing "graphml"]

/-- The GraphML document of a graph. -/
def write (g : HostGraph) : String :=
  Xml.render (events g)

/-- The document of a graph in a named format. -/
def exportAs (g : HostGraph) (format : String) : Except Failure String :=
  if format = "graphml" then .ok (write g)
  else
    .error ((Failure.invalidQuery ("Unsupported download format: " ++ format)
      "graph:formats").withHint "Supported formats: graphml")

end MotifQuery.GraphML
