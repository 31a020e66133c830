import MotifQuery.Aggregation.Basic
import MotifQuery.Graph.Schema
import MotifQuery.Json.Printer
import MotifQuery.Query.Compiled
import MotifQuery.Time.Calendar

/-!
# `MotifQuery.Service.Answer`: answers to queries

An answer names its host and its query and carries the outcome: a value or a failure. It
is written as a record that always has the same fields: where the query failed, the
message stands in `error`, a count is -1, and a list, a table or a text is empty.
-/

set_option autoImplicit false

namespace MotifQuery

/-- An answer as it is written, and the failure in it. -/
structure Reply where
  document : Json
  failure? : Option Failure

/-- The host of an answer and the instant at which it was given. -/
structure Stamp where
  hostId : String
  time : Instant
deriving DecidableEq

/-- The fields of a stamp. The clock stands still while a query is answered. -/
def Stamp.fields (s : Stamp) : List (String × Json) :=
  [("host_id", .str s.hostId), ("response_time", .str s.time.text),
    ("response_duration_ms", .float 0.0)]

/-- A query as it was asked. -/
structure Question where
  text : String
  language : QueryLanguage
deriving DecidableEq

/-- The fields of a question. -/
def Question.fields (q : Question) : List (String × Json) :=
  [("query", .str q.text), ("query_type", .str q.language.name)]

namespace Answer

variable {α : Type}

/-- The failure of an outcome. -/
def failure? : Except Failure α → Option Failure
  | .ok _ => none
  | .error f => some f

/-- The record of an answer: its fields and, last, the message of a failure. -/
def reply (fields : List (String × Json)) (outcome : Except Failure α) : Reply where
  document :=
    .record (fields ++ [("error", .ofString? ((failure? outcome).map (·.message)))])
  failure? := failure? outcome

/-- A count, -1 where it failed. It is written as a number of 64 bits with sign. -/
def count : Except Failure Nat → Json
  | .ok n => .nat (min n (Nat.pow 2 63 - 1))
  | .error _ => .int (-1)

/-- What a value shows, or what stands where it failed. -/
def shown (write : α → Json) (empty : Json) : Except Failure α → Json
  | .ok a => write a
  | .error _ => empty

end Answer

/-- The field for the size of a part of a graph. -/
def GraphPart.sizeField : GraphPart → String
  | vertices => "vertex_count"
  | edges => "edge_count"

/-- How many vertices or edges a host has. -/
structure SizeAnswer where
  stamp : Stamp
  part : GraphPart
  outcome : Except Failure Nat

/-- The record of a size. -/
def SizeAnswer.reply (a : SizeAnswer) : Reply :=
  Answer.reply (a.stamp.fields ++ [(a.part.sizeField, Answer.count a.outcome)]) a.outcome

/-- Which attributes the vertices or edges of a host have. -/
structure SchemaAnswer where
  stamp : Stamp
  outcome : Except Failure Schema

/-- The record of a schema. -/
def SchemaAnswer.reply (a : SchemaAnswer) : Reply :=
  Answer.reply
    (a.stamp.fields ++ [("attributes", Answer.shown Schema.toJson (.obj []) a.outcome)])
    a.outcome

/-- What a query compiles to. -/
structure CompileAnswer where
  stamp : Stamp
  question : Question
  outcome : Except Failure CompiledQuery

/-- The record of a compiled query. -/
def CompileAnswer.reply (a : CompileAnswer) : Reply :=
  let pair (e : String × String) : Json := .strings [e.1, e.2]
  Answer.reply
    (a.stamp.fields ++ a.question.fields ++ [
      ("motif_entities", Answer.shown (fun q => .strings q.entities) (.arr []) a.outcome),
      ("motif_edges",
        Answer.shown (fun q => .arr (q.motif.requiredEdges.map pair)) (.arr []) a.outcome),
      ("motif_nodelink_json",
        Answer.shown (fun q => .str q.motif.toNodeLink.compact) (.str (Json.obj []).compact)
          a.outcome)])
    a.outcome

/-- How often a query has a match in a host. -/
structure MatchCountAnswer where
  stamp : Stamp
  question : Question
  /-- What a match binds; nothing where the query does not compile. -/
  entities : List String
  outcome : Except Failure Nat

/-- The record of a number of matches. -/
def MatchCountAnswer.reply (a : MatchCountAnswer) : Reply :=
  Answer.reply
    (a.stamp.fields ++ a.question.fields ++ [
      ("motif_count", Answer.count a.outcome),
      ("motif_entities", .strings a.entities)])
    a.outcome

/-- The matches of a query in a host, aggregated. -/
structure SearchAnswer where
  stamp : Stamp
  question : Question
  /-- The directive as it was asked. -/
  aggregation : Option String
  /-- What a match binds; nothing where the query does not compile. -/
  entities : List String
  volumetricData : Dict Json
  /-- The number of matches before they are aggregated, and the results. -/
  outcome : Except Failure (Nat × AggregatedResults)

/-- The record of a search; no volumetric data are `null`. -/
def SearchAnswer.reply (a : SearchAnswer) : Reply :=
  Answer.reply
    (a.stamp.fields ++ a.question.fields ++ [
      ("motif_count", Answer.count (a.outcome.map (·.1))),
      ("aggregation_type", .ofString? a.aggregation),
      ("motif_results", Answer.shown (fun found => found.2.toJson) (.arr []) a.outcome),
      ("motif_entities", .strings a.entities),
      ("host_volumetric_data",
        if a.volumetricData.isEmpty then .null else .object a.volumetricData)])
    a.outcome

/-- The graph of a host as a document. -/
structure DownloadAnswer where
  stamp : Stamp
  format : String
  outcome : Except Failure String

/-- The record of a download. -/
def DownloadAnswer.reply (a : DownloadAnswer) : Reply :=
  Answer.reply
    (a.stamp.fields ++ [
      ("format", .str a.format), ("graph", Answer.shown .str (.str "") a.outcome)])
    a.outcome

end MotifQuery
