import MotifQuery.Config.Source
import MotifQuery.Graph.Schema
import MotifQuery.GraphML.Writer
import MotifQuery.Host.Provider
import MotifQuery.Query.Compiled

/-!
# `MotifQuery.Service.Job`: the work of a query in its worker

A job loads a host graph from a provider, computes a value from it, and sends the value
back as JSON. `Job.run` gives what the caller gets by the fate of the worker, and the disk
afterwards: loading may fill a cache, whatever becomes of the rest.
-/

set_option autoImplicit false

namespace MotifQuery

/-- How a value travels from a worker. -/
structure Payload (α : Type) where
  toJson : α → Json
  ofJson? : Json → Option α

/-- What a search sends back. -/
structure Findings where
  rows : List Match
  /-- The required attribute of the host vertices. -/
  attributes : Dict Json
deriving DecidableEq

namespace Payload

/-- A number. -/
def count : Payload Nat :=
  ⟨.nat, Json.natural?⟩

/-- A text. -/
def text : Payload String :=
  ⟨.str, Json.asString?⟩

/-- A schema. -/
def schema : Payload Schema :=
  ⟨Schema.toJson, Schema.ofJson?⟩

/-- Reads a match. -/
def matchOfJson? (j : Json) : Option Match :=
  match j with
  | .obj fields =>
    (fields.mapM fun (entry : String × Json) => entry.2.asString?.map fun s => (entry.1, s)).map
      Dict.ofList
  | _ => none

/-- Reads a list of matches. -/
def rowsOfJson? (j : Json) : Option (List Match) :=
  match j with
  | .arr items => items.mapM matchOfJson?
  | _ => none

/-- What a search sends back. -/
def findings : Payload Findings where
  toJson f :=
    .ofFields [
      ("matches", .arr (f.rows.map fun row => .object (row.map .str))),
      ("vertex_attributes", .object f.attributes)]
  ofJson? j := do
    let rows ← rowsOfJson? (← j.field? "matches")
    let attributes ← (← j.field? "vertex_attributes").asDict?
    pure { rows, attributes }

end Payload

/-- The work of a query. -/
structure Job (α : Type) where
  payload : Payload α
  compute : HostGraph → Except Failure α
  /-- Does the work on a graph end within a number of steps? -/
  endsWithin : HostGraph → Nat → Bool := fun _ _ => true

namespace Job

variable {α : Type}

/-- Runs a job in a worker, against the graph that the provider has for the URI. -/
def run (s : Surroundings) (limits : ResourceLimits) (p : Provider) (uri : String) (d : Disk)
    (job : Job α) : Except Failure α × Disk :=
  -- a graph that cannot be loaded is a failure of the work, not of the worker
  let (loaded, d) := p.load s d uri
  let ends : Nat → Bool := match loaded with
    | .ok g => job.endsWithin g
    | .error _ => fun _ => true
  let result := fun (_ : Unit) => (loaded.bind job.compute).map job.payload.toJson
  (((s.fate limits ends).outcome limits job.payload.ofJson? result).toResult, d)

/-- Counts the vertices or the edges. -/
def size (part : GraphPart) : Job Nat where
  payload := .count
  compute g := .ok (g.size part)

/-- Finds the attributes of the vertices or the edges. -/
def schema (part : GraphPart) : Job Schema where
  payload := .schema
  compute g := .ok (g.schema part)

/-- Counts the matches of a query. -/
def countMatches (q : CompiledQuery) : Job Nat where
  payload := .count
  compute g := .ok (q.count g)
  endsWithin g := q.motif.endsWithin g

/-- Finds the matches of a query, and an attribute of the host vertices if it is wanted. -/
def search (q : CompiledQuery) (attribute? : Option String) : Job Findings where
  payload := .findings
  compute g :=
    .ok {
      rows := q.find g
      attributes := match attribute? with
        | some name => g.attributeValues name
        | none => ∅ }
  endsWithin g := q.motif.endsWithin g

/-- Writes the graph in a format. -/
def download (format : String) : Job String where
  payload := .text
  compute g := GraphML.exportAs g format

end Job

end MotifQuery
