import MotifQuery.Config.Source
import MotifQuery.Json.Document
import MotifQuery.Service.Answer
import MotifQuery.Text.Utf8

/-!
# `MotifQuery.Http.Request`: requests

A request has a method, a URL and perhaps a body. The path of the URL ends at the first
question mark; what follows is the query, which is taken as it stands. The bodies of
queries are JSON records.
-/

set_option autoImplicit false

namespace MotifQuery.Http

open Source

/-- The methods that are served. -/
inductive Method where
  | get
  | post
  | delete
  | options
deriving DecidableEq

namespace Method

/-- The name of a method in messages. -/
def name : Method → String
  | get => "Get"
  | post => "Post"
  | delete => "Delete"
  | options => "Options"

/-- The name of a method in requests. -/
def token : Method → String
  | get => "GET"
  | post => "POST"
  | delete => "DELETE"
  | options => "OPTIONS"

/-- The method of a request. -/
def ofToken? (s : String) : Option Method :=
  [get, post, delete, options].find? fun m => m.token == s

end Method

/-- A request. -/
structure Request where
  method : Method
  url : String
  body : Option Bytes := none
deriving DecidableEq

namespace Request

/-- The path of a request. -/
def path (r : Request) : String :=
  match Text.splitOnce? ['?'] r.url.toList with
  | some (path, _) => String.ofList path
  | none => r.url

/-- A part of the query as key and value. -/
def queryPart (part : List Char) : String × String :=
  match Text.splitOnce? ['='] part with
  | some (key, value) => (String.ofList key, String.ofList value)
  | none => (String.ofList part, "")

/-- The values of the query by their keys; of two values for one key the later stays. -/
def query (r : Request) : Dict String :=
  match Text.splitOnce? ['?'] r.url.toList with
  | none => ∅
  | some (_, parts) =>
    Dict.ofList
      (((Text.pieces '&' parts).filter fun part => !(Text.trim part).isEmpty).map queryPart)

end Request

/-- The part of the program that answers requests. -/
def origin : String := "server:handle_api_request"

/-- The failure of a request that lacks its body. -/
def bodyRequired : Failure :=
  .user "request_body_required" "Request body is required" origin

/-- The failure of a body that is not of the expected form. -/
def invalidBody : Failure :=
  .user "invalid_json_body" "Invalid JSON body: not of the expected form" origin

/-- Reads the record in the body of a request. -/
def Request.read {α : Type} (r : Request) (read? : Json.Document → Option α) :
    Except Failure α :=
  match r.body with
  | none => .error bodyRequired
  | some body =>
    match ((Text.decode? body).bind Json.Document.parse?).bind read? with
    | some a => .ok a
    | none => .error invalidBody

/-- Reads a query that names a host only. -/
def hostOf? (node : Json.Document) : Option String :=
  match Json.Document.source.fields? ["host_id"] node with
  | some [id] => require Json.Document.source.text? id
  | _ => none

/-- A search as it is asked. -/
structure SearchRequest where
  hostId : String
  question : Question
  aggregation : Option String
deriving DecidableEq

/-- Reads the language of a query: its name, or an object with the name as the only key of
nothing. -/
def languageOf? (node : Json.Document) : Option QueryLanguage :=
  let s := Json.Document.source
  match s.text? node, s.members? node with
  | some name, _ => QueryLanguage.ofName? name
  | none, some [(name, value)] =>
    if s.isNull value then QueryLanguage.ofName? name else none
  | none, _ => none

/-- Reads a search. -/
def SearchRequest.read? (node : Json.Document) : Option SearchRequest :=
  let s := Json.Document.source
  match s.fields? ["host_id", "query", "query_type", "aggregation_type"] node with
  | some [hostId, query, language, aggregation] => do
    let hostId ← orElse "" s.text? hostId
    let text ← require s.text? query
    let language ← orElse .dotmotif languageOf? language
    let aggregation ← s.optional none s.text? aggregation
    pure { hostId, question := { text, language }, aggregation }
  | _ => none

/-- A download as it is asked. -/
structure DownloadRequest where
  hostId : String
  format : String
deriving DecidableEq

/-- Reads a download. -/
def DownloadRequest.read? (node : Json.Document) : Option DownloadRequest :=
  let s := Json.Document.source
  match s.fields? ["host_id", "format"] node with
  | some [hostId, format] => do
    let hostId ← require s.text? hostId
    let format ← orElse "graphml" s.text? format
    pure { hostId, format }
  | _ => none

end MotifQuery.Http
