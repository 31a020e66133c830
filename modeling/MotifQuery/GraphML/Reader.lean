import MotifQuery.Failure
import MotifQuery.Graph.Basic
import MotifQuery.Xml.Reader

/-!
# `MotifQuery.GraphML.Reader`: graphs from GraphML

A GraphML document is read event by event. `key` elements name attributes and give their
types; `data` elements inside a node or an edge give values, typed by their key; a node or
edge enters the graph when its tag closes, or at once when it stands alone. The first
`graph` element decides the direction. Names are compared without what stands before the
first colon.
-/

set_option autoImplicit false

namespace MotifQuery.GraphML

open Text Number

/-- Why a document is no graph. -/
inductive Fault where
  | markup
  | attributes
  | text
  | missing (element name : String)
  | outside
  | noGraph
deriving DecidableEq

/-- The message of a fault. -/
def Fault.message : Fault → String
  | markup => "GraphML parse error: malformed markup"
  | attributes => "GraphML attribute error: malformed attributes"
  | text => "GraphML text error: malformed text"
  | missing element name => "<" ++ element ++ "> is missing the `" ++ name ++ "` attribute"
  | outside => "GraphML element outside of <graph>"
  | noGraph => "GraphML document has no <graph> element"

/-- The failure of a fault. -/
def Fault.toFailure (f : Fault) : Failure :=
  (Failure.backendIo f.message "graph:formats").withContext "format" "graphml"

/-- The name and the type that a `key` element declares. -/
structure Key where
  name : String
  type : String
deriving DecidableEq

/-- The value of a text under a declared type; a text that is no value of the type stays
a text. -/
def typedValue (raw : List Char) (type : String) : Json :=
  let raw := trim raw
  let string := Json.str (String.ofList raw)
  if type = "int" ∨ type = "long" then ((readInt64? raw).map .int).getD string
  else if type = "float" ∨ type = "double" then ((readDouble? raw).map .ofDouble).getD string
  else if type = "boolean" then
    let word := String.ofList (raw.map lowerAscii)
    if word = "true" ∨ word = "1" then .bool true
    else if word = "false" ∨ word = "0" then .bool false
    else string
  else string

/-- The kinds of elements that data belong to. -/
inductive Owner where
  | node
  | edge
  | other
deriving DecidableEq

/-- What has been read so far. -/
structure State where
  keys : Dict Key := ∅
  graph : Option HostGraph := none
  /-- The kind of the element that data belong to. -/
  owner : Owner := .other
  node : Option Vertex := none
  edge : Option Edge := none
  /-- The key of the open `data` element and its text so far. -/
  datum : Option (String × List Char) := none

/-- The name after the first colon. -/
def localName (name : String) : String :=
  match splitOnce? [':'] name.toList with
  | some (_, rest) => String.ofList rest
  | none => name

/-- The last value of an attribute. -/
def attr? (attributes : List (String × String)) (name : String) : Option String :=
  (attributes.reverse.find? fun a => a.1 == name).map Prod.snd

/-- An attribute that an element must have. -/
def required (attributes : List (String × String)) (element name : String) :
    Except Fault String :=
  match attr? attributes name with
  | some value => .ok value
  | none => .error (.missing element name)

/-- The open graph. -/
def State.target (s : State) : Except Fault HostGraph :=
  match s.graph with
  | some g => .ok g
  | none => .error .outside

/-- Adds a vertex to the open graph. -/
def State.addVertex (s : State) (v : Vertex) : Except Fault State := do
  let g ← s.target
  pure { s with graph := some (g.addVertex v.id v.attributes) }

/-- Adds an edge to the open graph. -/
def State.addEdge (s : State) (e : Edge) : Except Fault State := do
  let g ← s.target
  pure { s with graph := some (g.addEdge e.source e.target e.attributes) }

/-- Declares a key; one without an id declares nothing. -/
def State.declare (s : State) (attributes : List (String × String)) : State :=
  match attr? attributes "id" with
  | none => s
  | some id =>
    let key : Key :=
      { name := (attr? attributes "attr.name").getD id
        type := (attr? attributes "attr.type").getD "string" }
    { s with keys := s.keys.insert id key }

/-- Opens the graph, unless one is open. -/
def State.openGraph (s : State) (attributes : List (String × String)) : State :=
  match s.graph with
  | some _ => s
  | none =>
    { s with graph := some (.empty (attr? attributes "edgedefault" == some "directed")) }

/-- Reads the tag of an element; `standing` is set when it has no content. -/
def State.enter (s : State) (standing : Bool) (name : String)
    (attributes : Xml.AttributeList) : Except Fault State :=
  match attributes with
  | none => .error .attributes
  | some attributes =>
    let name := localName name
    if name = "key" then .ok (s.declare attributes)
    else if name = "graph" then .ok (s.openGraph attributes)
    else if name = "node" then do
      let id ← required attributes "node" "id"
      -- a tag that stands alone is never closed
      if standing then s.addVertex { id }
      else pure { s with owner := .node, node := some { id } }
    else if name = "edge" then do
      let source ← required attributes "edge" "source"
      let target ← required attributes "edge" "target"
      if standing then s.addEdge { source, target }
      else pure { s with owner := .edge, edge := some { source, target } }
    else if name = "data" ∧ !standing then
      .ok { s with datum := (attr? attributes "key").map fun key => (key, []) }
    else .ok s

/-- Adds text to the open `data` element. -/
def State.write (s : State) (cs : List Char) : State :=
  { s with datum := s.datum.map fun (key, text) => (key, text ++ cs) }

/-- Gives a value to the element that data belong to. -/
def State.give (s : State) (name : String) (value : Json) : State :=
  match s.owner with
  | .node =>
    { s with
      node := s.node.map fun v => { v with attributes := v.attributes.insert name value } }
  | .edge =>
    { s with
      edge := s.edge.map fun e => { e with attributes := e.attributes.insert name value } }
  | .other => s

/-- Closes the open `data` element. A key that is not declared is the name of a text. -/
def State.closeDatum (s : State) : State :=
  match s.datum with
  | none => s
  | some (id, text) =>
    let s := { s with datum := none }
    match s.keys.get? id with
    | some key => s.give key.name (typedValue text key.type)
    | none => s.give id (.str (String.ofList text))

/-- Reads a closing tag. -/
def State.leave (s : State) (name : String) : Except Fault State :=
  let name := localName name
  if name = "data" then .ok s.closeDatum
  else if name = "node" then do
    let s ← match s.node with
      | some v => ({ s with node := none } : State).addVertex v
      | none => pure s
    pure { s with owner := .other }
  else if name = "edge" then do
    let s ← match s.edge with
      | some e => ({ s with edge := none } : State).addEdge e
      | none => pure s
    pure { s with owner := .other }
  else .ok s

/-- Reads an event. -/
def State.step (s : State) : Xml.Event → Except Fault State
  | .opening name attributes => s.enter false name attributes
  | .standing name attributes => s.enter true name attributes
  | .closing name => s.leave name
  | .text content =>
    -- text outside `data` may be malformed
    if s.datum.isNone then .ok s
    else
      match content with
      | some content => .ok (s.write content.toList)
      | none => .error .text
  | .data content => .ok (s.write content.toList)
  | .declaration | .remark => .ok s

/-- The graph of a row of events. -/
def ofEvents (r : Xml.Reading) : Except Fault HostGraph := do
  let s ← r.events.foldlM State.step {}
  -- a fault in an element before the malformed place is told first
  if r.malformed then throw .markup
  match s.graph with
  | some g => pure g
  | none => throw .noGraph

/-- Reads a GraphML document. When `broken` is set the bytes broke off before their
end. -/
def read (broken : Bool) (bs : Bytes) : Except Failure HostGraph :=
  match ofEvents (Xml.readEvents broken bs) with
  | .ok g => .ok g
  | .error fault => .error fault.toFailure

end MotifQuery.GraphML
