import MotifQuery.Failure
import MotifQuery.Json.Document
import MotifQuery.Json.Printer

/-!
# `MotifQuery.Aggregation.Directive`: how to aggregate matches

A directive is the name of a kind, or a kind, a bar and a JSON object of arguments. Only
the first bar parts the two, so the arguments may hold bars. `Aggregation.ofDirective`
selects the aggregation of a kind and checks its arguments; every kind but the documented
ones is refused.
-/

set_option autoImplicit false

namespace MotifQuery

open Text

/-- A kind and its arguments. A kind without a name asks for no aggregation. -/
structure Directive where
  kind : String
  args : Dict Json
deriving DecidableEq

namespace Directive

/-- The failure of arguments that are no object. -/
def notAnObject (value : Json) : Failure :=
  .invalidAggregation ("Aggregation arguments must be a JSON object, got " ++ value.compact)
    "aggregation"

/-- The failure of arguments that are no JSON. -/
def malformed (raw : String) : Failure :=
  (Failure.invalidAggregation "Malformed aggregation arguments: no JSON value"
    "aggregation").withContext "directive" raw

/-- Reads a directive. -/
def parse (raw : String) : Except Failure Directive :=
  match splitOnce? ['|'] raw.toList with
  | none => .ok ⟨String.ofList (trim raw.toList), ∅⟩
  | some (kind, args) =>
    match Json.parse? (trim args) with
    | some value =>
      match value.asDict? with
      | some args => .ok ⟨String.ofList (trim kind), args⟩
      | none => .error (notAnObject value)
    | none => .error (malformed raw)

/-- Does the directive ask for no aggregation? -/
def isIdentity (d : Directive) : Bool :=
  d.kind == ""

end Directive

/-- The aggregations. -/
inductive Aggregation where
  /-- The matches as they are. -/
  | identity
  /-- Host vertex, then entity. -/
  | hostVertex
  /-- Entity, then host vertex. -/
  | motifVertex
  /-- Entity, then the value of an attribute of the host vertex. -/
  | vertexAttribute (name : String)
  /-- Some of the matches, drawn at random. -/
  | sample (limit : Nat)
deriving DecidableEq

namespace Aggregation

/-- The aggregation by attribute that the arguments ask for. -/
def byAttribute (args : Dict Json) : Except Failure Aggregation :=
  let refused : Except Failure Aggregation := .error (.invalidAggregation
    "motif.vertex.attribute requires a non-empty string `attribute` argument" "aggregation")
  match args.get? "attribute" with
  | some (.str name) => if name = "" then refused else .ok (.vertexAttribute name)
  | _ => refused

/-- The sample that the arguments ask for. -/
def bySample (args : Dict Json) : Except Failure Aggregation :=
  let refused (value : Json) : Except Failure Aggregation := .error (.invalidAggregation
    ("sample `limit` must be a non-negative integer, got " ++ value.compact) "aggregation")
  match args.get? "limit" with
  | none => .ok (.sample 1)
  | some (.int n) => if 0 ≤ n then .ok (.sample n.toNat) else refused (.int n)
  | some value => refused value

/-- The aggregation of a directive. -/
def ofDirective (d : Directive) : Except Failure Aggregation :=
  if d.kind = "" then .ok .identity
  else if d.kind = "host.vertex" then .ok .hostVertex
  else if d.kind = "motif.vertex" then .ok .motifVertex
  else if d.kind = "motif.vertex.attribute" then byAttribute d.args
  else if d.kind = "sample" then bySample d.args
  else
    .error ((Failure.invalidAggregation ("Unknown aggregation type '" ++ d.kind ++ "'")
      "aggregation").withHint
      "Valid types: host.vertex, motif.vertex, motif.vertex.attribute, sample")

/-- Reads a directive, if there is one, and selects its aggregation. -/
def parse (raw : Option String) : Except Failure Aggregation :=
  match raw with
  | none => .ok .identity
  | some raw =>
    match Directive.parse raw with
    | .ok d => ofDirective d
    | .error f => .error f

/-- The host vertex attribute that the aggregation needs. -/
def requiredAttribute : Aggregation → Option String
  | vertexAttribute name => some name
  | _ => none

end Aggregation

end MotifQuery
