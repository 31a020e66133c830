import MotifQuery.Config.Basic
import MotifQuery.Csv.EdgeList
import MotifQuery.Disk.Basic
import MotifQuery.Host.Uri

/-!
# `MotifQuery.Host.PropertyTables`: graphs in property tables

A directory holds tables of vertices and tables of edges, told apart by how their names
begin. The header of a table says what each column is for: an id, an end of an edge,
labels, or an attribute with the type of its values. Tables are read in the order of their
names, those of vertices first; a cell that is empty says nothing, and later cells
override earlier ones. The graph is directed.
-/

set_option autoImplicit false

namespace MotifQuery.PropertyTables

open Text Number

/-- The part of the program that reads property tables. -/
def origin : String := "provider:opencypher"

/-- What a column is for. -/
inductive Column where
  | id
  | source
  | target
  | labels
  /-- An attribute, with the type of its values where one is given. -/
  | property (name : String) (type : Option String)
  | ignored
deriving DecidableEq

/-- The column of a header with a type. -/
def Column.ofTyped (name type : List Char) : Column :=
  let t := String.ofList type
  if t = "ID" then .id
  else if t = "START_ID" then .source
  else if t = "END_ID" then .target
  else if name.isEmpty then
    -- a type without a name is for labels or for nothing
    if t = "LABEL" ∨ t = "TYPE" then .labels else .ignored
  else .property (String.ofList name) (some (String.ofList (type.map lowerAscii)))

/-- The column of a header. -/
def Column.ofHeader (header : String) : Column :=
  match splitLast? ':' header.toList with
  | some (name, type) => .ofTyped name type
  | none =>
    if header = "_id" ∨ header = "id" then .id
    else if header = "_source" ∨ header = "source" then .source
    else if header = "_target" ∨ header = "target" then .target
    else if header = "" then .ignored
    else .property header none

/-- The truth value that a text of any case writes. -/
def truthValue? (raw : String) : Option Bool :=
  if sameLetters raw.toList "true".toList then some true
  else if sameLetters raw.toList "false".toList then some false
  else none

/-- The value of a cell; a text that is not of the type stays a text. -/
def cellValue (type : Option String) (raw : String) : Json :=
  match type with
  | none => Csv.cellValue raw
  | some type =>
    if type = "int" ∨ type = "long" ∨ type = "short" ∨ type = "byte" then
      ((readInt64? raw.toList).map .int).getD (.str raw)
    else if type = "float" ∨ type = "double" then
      ((readDouble? raw.toList).map .ofDouble).getD (.str raw)
    else if type = "bool" ∨ type = "boolean" then
      ((truthValue? raw).map .bool).getD (.str raw)
    else .str raw

/-- What a row says. -/
structure Row where
  id : Option String := none
  source : Option String := none
  target : Option String := none
  attributes : Attributes := ∅
deriving DecidableEq

/-- Takes a cell into a row. -/
def Row.take (row : Row) (column : Column) (raw : String) : Row :=
  if raw = "" then row
  else
    match column with
    | .id => { row with id := some raw }
    | .source => { row with source := some raw }
    | .target => { row with target := some raw }
    | .labels => { row with attributes := row.attributes.insert labelsAttribute (.str raw) }
    | .property name type =>
      { row with attributes := row.attributes.insert name (cellValue type raw) }
    | .ignored => row

/-- Reads a record. -/
def Row.ofRecord (columns : List Column) (record : List String) : Row :=
  (columns.zip record).foldl (fun row (cell : Column × String) => row.take cell.1 cell.2) {}

/-- Adds the vertex of a row that names one. -/
def addVertexRow (g : HostGraph) (row : Row) : HostGraph :=
  match row.id with
  | some id => g.addVertex id row.attributes
  | none => g

/-- Adds the edge of a row that names both its ends. -/
def addEdgeRow (g : HostGraph) (row : Row) : HostGraph :=
  match row.source, row.target with
  | some source, some target => g.addEdge source target row.attributes
  | _, _ => g

/-- The kinds of tables. -/
inductive TableKind where
  | vertices
  | edges
deriving DecidableEq

/-- The columns that a table needs, in the order in which they are looked for. -/
def TableKind.needed : TableKind → List (Column × String)
  | vertices => [(.id, "id")]
  | edges => [(.source, "source"), (.target, "target")]

/-- Adds what a row of a table says. -/
def TableKind.addRow : TableKind → HostGraph → Row → HostGraph
  | vertices => addVertexRow
  | edges => addEdgeRow

/-- The failure of a file that is no table. -/
def malformed (path : String) : Failure :=
  .backendIo ("CSV error in " ++ path ++ ": malformed record") origin

/-- Adds what a table says. -/
def addTable (kind : TableKind) (path : String) (t : Csv.Table) (g : HostGraph) :
    Except Failure HostGraph :=
  let columns := t.header.map Column.ofHeader
  match kind.needed.find? fun (need : Column × String) => !columns.contains need.1 with
  -- a missing column is told before a malformed row
  | some (_, what) => .error (.backendIo (path ++ " has no " ++ what ++ " column") origin)
  | none =>
    if t.malformed then .error (malformed path)
    else .ok ((t.rows.map (Row.ofRecord columns)).foldl kind.addRow g)

/-- Adds what a file says. -/
def addFile (d : Disk) (kind : TableKind) (g : HostGraph) (path : String) :
    Except Failure HostGraph :=
  match (d.read path).toOption.bind Csv.readTable? with
  | some t => addTable kind path t g
  | none => .error (malformed path)

/-- The files in a directory whose names begin with `stem`, in the order of their names. -/
def tablesIn (d : Disk) (dir stem : String) : Except Failure (List String) :=
  match d.names dir with
  | .error fault => .error (.backendIo ("Cannot read " ++ dir ++ ": " ++ fault.message) origin)
  | .ok names =>
    .ok (((names.filter fun name => startsWith name stem).map (Disk.join dir)).filter d.isFile)

/-- Reads the graph of a directory. -/
def readDirectory (options : OpenCypherOptions) (d : Disk) (dir : String) :
    Except Failure HostGraph := do
  let vertices ← tablesIn d dir options.vertexStem
  let edges ← tablesIn d dir options.edgeStem
  if vertices.isEmpty ∧ edges.isEmpty then
    throw (.backendIo ("No " ++ options.vertexStem ++ "* or " ++ options.edgeStem
      ++ "* CSV files in " ++ dir) origin)
  let g ← vertices.foldlM (addFile d .vertices) (.empty true)
  edges.foldlM (addFile d .edges) g

/-- Reads the graph of a URI. -/
def load (options : OpenCypherOptions) (d : Disk) (uri : String) : Except Failure HostGraph := do
  let dir ← afterScheme propertyScheme origin uri
  readDirectory options d dir

end MotifQuery.PropertyTables
