import MotifQuery.Json.Basic
import MotifQuery.Number.Shortest
import MotifQuery.Text.Split

/-!
# `MotifQuery.Failure`: classified failures

Every failure that can reach a caller carries a category, a code within the category, a
message, the part of the program it comes from, whether other input could succeed, an
optional hint and a dictionary of context. The command line, the HTTP interface and the
worker's report all speak of failures in this form, so `toJson` and `ofJson?` are inverse
to each other.
-/

set_option autoImplicit false

namespace MotifQuery

/-- What kind of failure it is. -/
inductive Category where
  /-- Loading or validating a configuration. -/
  | config
  /-- Unknown host ids. -/
  | host
  /-- No provider for a URI. -/
  | provider
  /-- Query text. -/
  | query
  /-- Aggregation directives. -/
  | aggregation
  /-- Time and memory limits of a worker. -/
  | limits
  /-- Files and object stores behind a provider. -/
  | backend
  /-- The system the program runs on. -/
  | system
  /-- Input of the user. -/
  | user
deriving DecidableEq, Repr

namespace Category

/-- All categories. -/
def all : List Category :=
  [config, host, provider, query, aggregation, limits, backend, system, user]

/-- The name of a category. -/
def name : Category → String
  | config => "config"
  | host => "host"
  | provider => "provider"
  | query => "query"
  | aggregation => "aggregation"
  | limits => "limits"
  | backend => "backend"
  | system => "system"
  | user => "user"

/-- The category with a name. -/
def ofName? (s : String) : Option Category :=
  all.find? fun c => c.name == s

end Category

/-- A span of time in nanoseconds. -/
abbrev Span := Nat

namespace Span

/-- The nanoseconds of a second. -/
def second : Span := 1000000000

/-- A span of milliseconds. -/
def ofMillis (n : Nat) : Span :=
  n * 1000000

/-- The span in seconds: whole seconds and the fraction are rounded apart, then added. -/
def toSeconds (s : Span) : Float :=
  Float.ofNat (s / second) + Float.ofNat (s % second) / 1000000000.0

end Span

/-- A classified failure. -/
structure Failure where
  category : Category
  code : String
  message : String
  /-- The part of the program it comes from. -/
  origin : String
  /-- Could other input succeed? -/
  recoverable : Bool := false
  hint : Option String := none
  context : Dict String := ∅
deriving DecidableEq

namespace Failure

/-- Adds a context entry; an entry with the same key is replaced. -/
def withContext (f : Failure) (key value : String) : Failure :=
  { f with context := f.context.insert key value }

/-- Sets the hint. -/
def withHint (f : Failure) (hint : String) : Failure :=
  { f with hint := some hint }

/-- A failure in the configuration. -/
def config (code message origin : String) : Failure :=
  { category := .config, code, message, origin }

/-- A failure of the system. -/
def system (code message origin : String) : Failure :=
  { category := .system, code, message, origin }

/-- A failure through the user's input. -/
def user (code message origin : String) : Failure :=
  { category := .user, code, message, origin, recoverable := true }

/-- No listing carries the id. -/
def hostNotFound (id origin : String) : Failure :=
  { category := .host, code := "host_not_found", message := "No host found with ID " ++ id,
    origin, recoverable := true, context := Dict.empty.insert "host_id" id }

/-- No provider accepts the URI. -/
def providerNotFound (uri origin : String) : Failure :=
  { category := .provider, code := "provider_not_found",
    message := "No provider accepts URI " ++ uri, origin,
    hint := some "Check the `providers` section of the configuration",
    context := Dict.empty.insert "uri" uri }

/-- A query that does not compile. -/
def invalidQuery (message origin : String) : Failure :=
  { category := .query, code := "invalid_query", message, origin, recoverable := true }

/-- A directive that names no aggregation. -/
def invalidAggregation (message origin : String) : Failure :=
  { category := .aggregation, code := "invalid_aggregation", message, origin,
    recoverable := true }

/-- A worker passed its deadline. -/
def timedOut (after : Span) (origin : String) : Failure :=
  { category := .limits, code := "query_timed_out",
    message := "Query timed out after " ++ Number.oneDecimalText after.toSeconds ++ " seconds",
    origin, recoverable := true }

/-- A worker ended without a report. -/
def resourceExhausted (limit : Option Nat) (origin : String) : Failure :=
  { category := .limits, code := "resource_exhausted",
    message := match limit with
      | some bytes => "Query exceeded its memory limit of " ++ Number.natText bytes ++ " bytes"
      | none => "Query worker exited without producing a result"
    origin, recoverable := true }

/-- A file or an object store failed. -/
def backendIo (message origin : String) : Failure :=
  { category := .backend, code := "backend_io", message, origin }

/-- Does the code say that something was not found? -/
def isNotFound (f : Failure) : Bool :=
  Text.endsWith f.code "not_found"

/-- Category, code and message in one line. -/
def display (f : Failure) : String :=
  "[" ++ f.category.name ++ ":" ++ f.code ++ "] " ++ f.message

/-- All fields of a failure. -/
def toJson (f : Failure) : Json :=
  .ofFields [
    ("category", .str f.category.name),
    ("code", .str f.code),
    ("message", .str f.message),
    ("origin", .str f.origin),
    ("recoverable", .bool f.recoverable),
    ("recovery_hint", .ofString? f.hint),
    ("context", .object (f.context.map .str))]

/-- Reads an optional text. -/
def hintOfJson? : Json → Option (Option String)
  | .null => some none
  | .str s => some (some s)
  | _ => none

/-- Reads a dictionary of texts. -/
def contextOfJson? (j : Json) : Option (Dict String) :=
  match j with
  | .obj fields =>
    (fields.mapM fun (entry : String × Json) => entry.2.asString?.map fun s => (entry.1, s)).map
      Dict.ofList
  | _ => none

/-- Reads back what `toJson` writes. -/
def ofJson? (j : Json) : Option Failure := do
  let category ← Category.ofName? (← (← j.field? "category").asString?)
  let code ← (← j.field? "code").asString?
  let message ← (← j.field? "message").asString?
  let origin ← (← j.field? "origin").asString?
  let recoverable ← match ← j.field? "recoverable" with
    | .bool b => some b
    | _ => none
  let hint ← hintOfJson? ((j.field? "recovery_hint").getD .null)
  let context ← contextOfJson? (← j.field? "context")
  pure { category, code, message, origin, recoverable, hint, context }

/-- What callers get to see of a failure. -/
def summary (f : Failure) : Json :=
  let fields := [
    ("category", Json.str f.category.name),
    ("code", .str f.code),
    ("message", .str f.message)]
  .record (match f.hint with
    | some hint => fields ++ [("hint", .str hint)]
    | none => fields)

/-- The failure inside the envelope that callers get. -/
def envelope (f : Failure) : Json :=
  .record [("success", .bool false), ("error", f.summary)]

end Failure

/-- Data inside the envelope that callers get. -/
def Json.envelope (data : Json) : Json :=
  .record [("success", .bool true), ("data", data)]

end MotifQuery
