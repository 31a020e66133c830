import MotifQuery.Failure
import MotifQuery.Json.Printer
import MotifQuery.Text.Utf8

/-!
# `MotifQuery.Http.Response`: responses

A response has a status, a type of content and a body. Data and failures are written in
the envelope that all callers get; the status of a failure follows from its code and its
category.
-/

set_option autoImplicit false

namespace MotifQuery.Http

/-- A response. -/
structure Response where
  status : Nat
  contentType : String
  body : Bytes
deriving DecidableEq

namespace Response

/-- A response with JSON. -/
def json (status : Nat) (j : Json) : Response :=
  { status, contentType := "application/json", body := Text.bytesOf j.indented }

/-- Data in their envelope. -/
def ok (data : Json) : Response :=
  json 200 data.envelope

/-- The status of a failure. -/
def statusOf (f : Failure) : Nat :=
  if f.isNotFound then 404
  else
    match f.category with
    | .user | .query | .aggregation => 400
    | _ => 500

/-- A failure in its envelope. -/
def failed (f : Failure) : Response :=
  json (statusOf f) f.envelope

/-- The answer to a question for the methods of a path. -/
def noContent : Response :=
  { status := 204, contentType := "text/plain", body := [] }

/-- The header lines that let pages of every origin use the interface. -/
def accessHeaders : List (String × String) := [
  ("Access-Control-Allow-Origin", "*"),
  ("Access-Control-Allow-Methods", "GET, POST, DELETE, OPTIONS"),
  ("Access-Control-Allow-Headers", "Content-Type")]

end Response

end MotifQuery.Http
