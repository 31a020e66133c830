import MotifQuery.Http.Endpoint
import MotifQuery.Http.Response
import MotifQuery.Service.Query
import MotifQuery.Service.Upload

/-!
# `MotifQuery.Http.Handler`: requests to a service

A request goes to the endpoint of its path; a path without one and a method that the
endpoint is not served for are failures. Failures of the service become responses with
their envelope. `handle` gives no response where the handler breaks down: an upload that
would expire beyond the calendar.
-/

set_option autoImplicit false

namespace MotifQuery.Http

/-- The name of the program. -/
def programName : String := "motifstudio"

/-- The version of the program. -/
def programVersion : String := "0.1.0"

/-- That the program runs. -/
def statusJson : Json :=
  .record [("name", .str programName), ("status", .str "ok"), ("version", .str programVersion)]

/-- The endpoints by their kinds. -/
def catalogJson : Json :=
  .record [
    ("read_endpoints", .strings ["/", "/providers/", "/providers/hostlist", "/queries/"]),
    ("query_endpoints", .strings [
      "/queries/vertices/count", "/queries/vertices/attributes", "/queries/edges/count",
      "/queries/edges/attributes", "/queries/motifs/_parse", "/queries/motifs/count",
      "/queries/motifs", "/queries/graph/download"]),
    ("upload_endpoints", .strings [
      "/uploads/graph?filename=<name>&name=<display name>", "/uploads/temporary",
      "/uploads/temporary/<id>/info", "/uploads/temporary/<id>"])]

/-- The response to a path without endpoint. -/
def unknownEndpoint (path : String) : Response :=
  .failed (.user "endpoint_not_found" ("Unknown endpoint '" ++ path ++ "'") origin)

/-- The response to a method that the endpoint is not served for. -/
def methodNotAllowed (path : String) (asked allowed : Method) : Response :=
  .json 405 ((Failure.user "method_not_allowed"
    ("Method '" ++ asked.name ++ "' is not allowed for '" ++ path ++ "'") origin).withHint
    ("Allowed method(s): " ++ allowed.token)).envelope

/-- The response with data or a failure. -/
def respond : Except Failure Json → Response
  | .ok data => .ok data
  | .error f => .failed f

/-- The response to a query whose body is read first. -/
def query {α β : Type} (v : Service) (r : Request) (read? : Json.Document → Option α)
    (run : α → Except Failure β × Service) (reply : β → Reply) : Response × Service :=
  match r.read read? with
  | .error f => (.failed f, v)
  | .ok a =>
    let (result, v) := run a
    (respond (result.map fun b => (reply b).document), v)

/-- The response to an upload. -/
def receive (s : Surroundings) (v : Service) (r : Request) : Option Response × Service :=
  let fileName := (r.query.get? "filename").getD "upload.graphml"
  match v.upload s (r.body.getD []) fileName (r.query.get? "name") with
  | (.ok receipt, v) => (some (.ok receipt.toJson), v)
  | (.error (.refused f), v) => (some (.failed f), v)
  | (.error .beyondCalendar, v) => (none, v)

/-- The response of an endpoint to a request with its method. -/
def serve (s : Surroundings) (v : Service) (r : Request) :
    Endpoint → Option Response × Service
  | .status => (some (.ok statusJson), v)
  | .providers => (some (.ok (.arr v.providers)), v)
  | .hosts => (some (.ok (.arr v.hosts)), v)
  | .catalog => (some (.ok catalogJson), v)
  | .size part =>
    let (response, v) := query v r hostOf? (v.size s part) SizeAnswer.reply
    (some response, v)
  | .schema part =>
    let (response, v) := query v r hostOf? (v.schema s part) SchemaAnswer.reply
    (some response, v)
  | .compile =>
    let (response, v) := query v r SearchRequest.read?
      (fun a => (.ok (Service.compile s a.hostId a.question), v)) CompileAnswer.reply
    (some response, v)
  | .countMatches =>
    let (response, v) := query v r SearchRequest.read?
      (fun a => v.countMatches s a.hostId a.question) MatchCountAnswer.reply
    (some response, v)
  | .search =>
    let (response, v) := query v r SearchRequest.read?
      (fun a => v.search s a.hostId a.question a.aggregation) SearchAnswer.reply
    (some response, v)
  | .download =>
    let (response, v) := query v r DownloadRequest.read?
      (fun a => v.download s a.hostId a.format) DownloadAnswer.reply
    (some response, v)
  | .upload => receive s v r
  | .uploads =>
    (some (respond ((v.uploads s).map fun us => .arr (us.map UploadListing.toJson))), v)
  | .uploadInfo id => (some (respond ((v.uploadInfo s id).map UploadListing.toJson)), v)
  | .uploadItself id =>
    let (result, v) := v.cleanup s id
    (some (respond (result.map fun _ => Service.cleanupReceipt id)), v)

/-- The response to a request, if the handler does not break down, and the service after
it. -/
def handle (s : Surroundings) (v : Service) (r : Request) : Option Response × Service :=
  if r.method = .options then (some .noContent, v)
  else
    match Endpoint.ofPath? r.path with
    | none => (some (unknownEndpoint r.path), v)
    | some e =>
      if r.method = e.method then serve s v r e
      else (some (methodNotAllowed r.path r.method e.method), v)

end MotifQuery.Http
