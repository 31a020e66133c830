import MotifQuery.Graph.Basic

/-!
# `MotifQuery.Graph.Schema`: attribute schemas

The schema of a graph names a type for every attribute that some vertex, or some edge,
carries. The type is known when all values of the attribute have it; it is open when two
values differ in type or some value has no type at all.
-/

set_option autoImplicit false

namespace MotifQuery

/-- The types of attribute values. -/
inductive ValueType where
  | str
  | int
  | float
  | bool
deriving DecidableEq, Repr

/-- The name of a type. -/
def ValueType.name : ValueType → String
  | str => "str"
  | int => "int"
  | float => "float"
  | bool => "bool"

/-- The type with a name. -/
def ValueType.ofName? (name : String) : Option ValueType :=
  [str, int, float, bool].find? fun type => type.name == name

/-- The type of a value; `null`, arrays and objects have none. -/
def ValueType.of? : Json → Option ValueType
  | .str _ => some .str
  | .bool _ => some .bool
  | .int _ => some .int
  | .float _ => some .float
  | .null | .arr _ | .obj _ => none

/-- A type, or none where the type is open, for every attribute. -/
abbrev Schema := Dict (Option ValueType)

namespace Schema

/-- Takes one more value of an attribute into account. -/
def observe (schema : Schema) (name : String) (value : Json) : Schema :=
  let observed := ValueType.of? value
  match schema.get? name with
  | none => schema.insert name observed
  | some current => if current = observed then schema else schema.insert name none

/-- The schema of a list of attribute dictionaries. -/
def ofAttributes (bags : List Attributes) : Schema :=
  bags.foldl
    (fun schema bag => bag.entries.foldl (fun schema e => schema.observe e.1 e.2) schema)
    ∅

/-- The schema as an object of type names. -/
def toJson (schema : Schema) : Json :=
  .object (schema.map fun type => .ofString? (type.map ValueType.name))

/-- Reads a type, or `null` for an open one. -/
def typeOfJson? : Json → Option (Option ValueType)
  | .null => some none
  | .str name => (ValueType.ofName? name).map some
  | _ => none

/-- Reads back what `toJson` writes. -/
def ofJson? : Json → Option Schema
  | .obj fields =>
    (fields.mapM fun (entry : String × Json) =>
      (typeOfJson? entry.2).map fun type => (entry.1, type)).map Dict.ofList
  | _ => none

end Schema

/-- The schema of the vertices. -/
def HostGraph.vertexSchema (g : HostGraph) : Schema :=
  .ofAttributes (g.vertices.toList.map (·.attributes))

/-- The schema of the edges. -/
def HostGraph.edgeSchema (g : HostGraph) : Schema :=
  .ofAttributes (g.edges.toList.map (·.attributes))

/-- The vertices or the edges of a graph. -/
inductive GraphPart where
  | vertices
  | edges
deriving DecidableEq

namespace HostGraph

/-- The number of vertices or of edges. -/
def size (g : HostGraph) : GraphPart → Nat
  | .vertices => g.vertexCount
  | .edges => g.edgeCount

/-- The schema of the vertices or of the edges. -/
def schema (g : HostGraph) : GraphPart → Schema
  | .vertices => g.vertexSchema
  | .edges => g.edgeSchema

end HostGraph

end MotifQuery
