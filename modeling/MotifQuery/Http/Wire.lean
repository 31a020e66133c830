import MotifQuery.Http.Handler

/-!
# `MotifQuery.Http.Wire`: requests and responses as bytes

A request is a line with method and URL, header lines, a blank line, and as many bytes of
body as the header says. Methods that are not served get an empty response, and so does a
request whose handler breaks down. The body counts for posts only, and an empty one counts
as none.
-/

set_option autoImplicit false

namespace MotifQuery.Http

/-- A request as it arrives. -/
structure RawRequest where
  method : String
  url : String
  body : Bytes := []
deriving DecidableEq

/-- A response as it leaves. -/
structure RawResponse where
  status : Nat
  headers : List (String × String) := []
  body : Bytes := []
deriving DecidableEq

namespace RawResponse

/-- The response without headers and body. -/
def bare (status : Nat) : RawResponse :=
  { status }

/-- A response with the headers of all responses. -/
def ofResponse (r : Response) : RawResponse :=
  { status := r.status
    headers := ("Content-Type", r.contentType) :: Response.accessHeaders
    body := r.body }

/-- What a status means. -/
def reason (status : Nat) : String :=
  if status = 200 then "OK"
  else if status = 204 then "No Content"
  else if status = 400 then "Bad Request"
  else if status = 404 then "Not Found"
  else if status = 405 then "Method Not Allowed"
  else "Internal Server Error"

/-- A header line. -/
def headerLine (h : String × String) : String :=
  h.1 ++ ": " ++ h.2 ++ "\r\n"

/-- The bytes of a response. -/
def bytes (r : RawResponse) : Bytes :=
  let start := "HTTP/1.0 " ++ Number.natText r.status ++ " " ++ reason r.status ++ "\r\n"
  let headers := r.headers ++ [("Content-Length", Number.natText r.body.length)]
  Text.bytesOf (start ++ String.join (headers.map headerLine) ++ "\r\n") ++ r.body

end RawResponse

namespace RawRequest

/-- The method and the URL of a request line. -/
def readStart? (line : String) : Option (String × String) :=
  match (Text.pieces ' ' line.toList).filter fun word => !word.isEmpty with
  | method :: url :: _ => some (String.ofList method, String.ofList url)
  | _ => none

/-- The number of bytes that a header line announces. -/
def readLength? (line : String) : Option Nat :=
  match Text.splitOnce? [':'] line.toList with
  | some (name, value) =>
    if Text.sameLetters name "content-length".toList then Number.readNat? (Text.trim value)
    else none
  | none => none

/-- The request that a service is to answer. -/
def request? (r : RawRequest) : Option Request :=
  (Method.ofToken? r.method).map fun method =>
    { method, url := r.url
      body := if method = .post ∧ !r.body.isEmpty then some r.body else none }

end RawRequest

/-- The response of a service to what arrives, and the service after it. -/
def exchange (s : Surroundings) (v : Service) (r : RawRequest) : RawResponse × Service :=
  match r.request? with
  | none => (.bare 405, v)
  | some request =>
    match handle s v request with
    | (some response, v) => (.ofResponse response, v)
    | (none, v) => (.bare 500, v)

end MotifQuery.Http
