import MotifQuery.Config.Limits
import MotifQuery.Json.Document
import MotifQuery.Json.Printer
import MotifQuery.Text.Utf8

/-!
# `MotifQuery.Worker.Outcome`: how a query in a worker ends

A query runs in a worker of its own, within limits. The worker ends its work by writing a
report: one line of JSON, closed by a line feed, that carries the value or the failure.
`Outcome.ofBytes` reads the bytes that a worker left behind. A worker that left no report
counts as stopped at its memory limit, however it ended; one that is still at work when
its time is over is stopped and counts as timed out. `WorkerFate` tells the ways in which a
worker can end, and `WorkerFate.outcome` what each makes of the result.
-/

set_option autoImplicit false

namespace MotifQuery

/-- How a query in a worker ends. -/
inductive Outcome (α : Type) where
  | success (value : α)
  /-- The deadline passed. -/
  | timedOut (after : Span)
  /-- The worker left no report. -/
  | resourceExhausted (limit : Option Nat)
  /-- The query itself failed. -/
  | failed (failure : Failure)
deriving DecidableEq

/-- The part of the program that runs workers. -/
def workerOrigin : String := "executor"

namespace Outcome

variable {α : Type}

/-- The name of an outcome. -/
def label : Outcome α → String
  | success _ => "success"
  | timedOut _ => "timed_out"
  | resourceExhausted _ => "resource_exhausted"
  | failed _ => "failed"

/-- Did the query give a value? -/
def isSuccess : Outcome α → Bool
  | success _ => true
  | _ => false

/-- The value or the failure of an outcome. -/
def toResult : Outcome α → Except Failure α
  | success value => .ok value
  | timedOut after => .error (.timedOut after workerOrigin)
  | resourceExhausted limit => .error (.resourceExhausted limit workerOrigin)
  | failed failure => .error failure

end Outcome

namespace Report

/-- A report as JSON. -/
def toJson : Except Failure Json → Json
  | .ok value => .ofFields [("Success", value)]
  | .error failure => .ofFields [("Failed", failure.toJson)]

/-- The line that a worker writes. -/
def line (report : Except Failure Json) : Bytes :=
  Text.bytesOf (toJson report).compact ++ [10]

/-- The failure of a report that cannot be read. -/
def unreadable : Failure :=
  .system "worker_protocol" "Failed to decode worker result: no report of the expected form"
    workerOrigin

/-- The failure of a query that broke down, with what it said. -/
def brokeDown (message : Option String) : Failure :=
  .system "worker_panicked" ("Query worker panicked: " ++ message.getD "unknown panic")
    workerOrigin

/-- The outcome that a report stands for. -/
def outcome? {α : Type} (value? : Json → Option α) (report : Json) : Option (Outcome α) :=
  match report with
  | .obj [("Success", value)] => (value? value).map .success
  | .obj [("Failed", failure)] => (Failure.ofJson? failure).map .failed
  | _ => none

end Report

namespace Outcome

variable {α : Type}

/-- The bytes up to and with the first line feed. -/
def firstLine : Bytes → Bytes
  | [] => []
  | b :: bs => if b = 10 then [b] else b :: firstLine bs

/-- The outcome of a worker that ended after writing these bytes. -/
def ofBytes (limits : ResourceLimits) (value? : Json → Option α) (written : Bytes) : Outcome α :=
  match Text.decode? (firstLine written) with
  | none => .resourceExhausted limits.maxRamBytes
  | some line =>
    if (Text.trim line).isEmpty then .resourceExhausted limits.maxRamBytes
    else ((Json.parse? line).bind (Report.outcome? value?)).getD (.failed Report.unreadable)

end Outcome

/-- How a worker ends. -/
inductive WorkerFate where
  /-- It writes its report. -/
  | reports
  /-- It ends when it has written that many bytes of its report. -/
  | dies (written : Nat)
  /-- It is still at work when its time is over. -/
  | overruns (after : Span)
deriving DecidableEq

/-- The outcome of a query by the fate of its worker; nobody asks for the result of a worker
that overruns its time. -/
def WorkerFate.outcome {α : Type} (limits : ResourceLimits) (value? : Json → Option α)
    (result : Unit → Except Failure Json) : WorkerFate → Outcome α
  | reports => .ofBytes limits value? (Report.line (result ()))
  | dies written => .ofBytes limits value? ((Report.line (result ())).take written)
  | overruns after => .timedOut after

end MotifQuery
