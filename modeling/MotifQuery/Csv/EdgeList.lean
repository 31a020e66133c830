import MotifQuery.Csv.Record
import MotifQuery.Failure
import MotifQuery.Graph.Basic

/-!
# `MotifQuery.Csv.EdgeList`: graphs from edge lists

An edge list is a table whose first two columns are the ends of an undirected edge. Every
further cell that is not empty is an attribute of the edge, named by the header: a whole
number of 64 bits, another number, a truth value or a text.
-/

set_option autoImplicit false

namespace MotifQuery.Csv

open Number

/-- The value that a cell writes. -/
def cellValue (raw : String) : Json :=
  match readInt64? raw.toList with
  | some n => .int n
  | none =>
    match readDouble? raw.toList with
    | some x => .ofDouble x
    | none =>
      if raw = "true" ∨ raw = "True" then .bool true
      else if raw = "false" ∨ raw = "False" then .bool false
      else .str raw

/-- The failure of a text that is no table. -/
def tableFailure : Failure :=
  (Failure.backendIo "CSV read error: malformed record" "graph:formats").withContext
    "format" "csv"

/-- The attributes of a row. -/
def rowAttributes (header row : List String) : Attributes :=
  Dict.ofList ((((header.zip row).drop 2).filter fun cell => cell.2 != "").map fun cell =>
    (cell.1, cellValue cell.2))

/-- Adds the edge of a row. -/
def addRow (header : List String) (g : HostGraph) (row : List String) : HostGraph :=
  match row with
  | source :: target :: _ => g.addEdge source target (rowAttributes header row)
  | _ => g

/-- The graph of a table. -/
def edgeGraph (t : Table) : HostGraph :=
  t.rows.foldl (addRow t.header) (.empty false)

/-- Reads an edge list. -/
def readEdgeList (bs : Bytes) : Except Failure HostGraph :=
  match readTable? bs with
  | none => .error tableFailure
  | some t =>
    -- the header is judged before the rows
    if t.header.length < 2 then
      .error (.backendIo "CSV edge list needs at least source and target columns"
        "graph:formats")
    else if t.malformed then .error tableFailure
    else .ok (edgeGraph t)

end MotifQuery.Csv
