import MotifQuery.CommandLine.Flag
import MotifQuery.CommandLine.Table
import MotifQuery.Failure
import MotifQuery.Json.Printer
import MotifQuery.Yaml.Writer

/-!
# `MotifQuery.CommandLine.Output`: what commands write

Data and failures are written in the envelope that all callers get, as JSON or as YAML.
Where tables are asked for, rows are a table, other data stand as JSON without envelope,
and a failure is a line with its category and code. The exit code of a failure follows
from its code.
-/

set_option autoImplicit false

namespace MotifQuery.CommandLine

/-- What a command leaves behind: its exit code and what it wrote. -/
structure Finish where
  exit : Nat := 0
  stdout : String := ""
  stderr : String := ""
deriving DecidableEq

namespace OutputFormat

/-- Data in a format. -/
def data (f : OutputFormat) (j : Json) : String :=
  match f with
  | table => j.indented ++ "\n"
  | json => j.envelope.indented ++ "\n"
  | yaml => Yaml.write j.envelope

/-- Rows in a format: as a table, or the data that they show. -/
def rows (f : OutputFormat) (t : Table) (j : Json) : String :=
  match f with
  | table => t.text ++ "\n"
  | json | yaml => f.data j

/-- A failure in a format. -/
def failure (f : OutputFormat) (failure : Failure) : String :=
  match f with
  | json => failure.envelope.indented ++ "\n"
  | yaml => Yaml.write failure.envelope
  | table =>
    "Error: " ++ failure.display ++ "\n" ++ match failure.hint with
      | some hint => "Hint: " ++ hint ++ "\n"
      | none => ""

end OutputFormat

/-- The exit code of a failure. -/
def exitOf (f : Failure) : Nat :=
  if f.isNotFound then 2 else if Text.startsWith f.code "duplicate" then 3 else 1

namespace Finish

/-- The end of a command that fails. -/
def failed (format : OutputFormat) (f : Failure) : Finish :=
  { exit := exitOf f, stderr := format.failure f }

/-- The end of a command that has data. -/
def data (format : OutputFormat) (j : Json) : Finish :=
  { stdout := format.data j }

/-- The end of a command that has rows. -/
def rows (format : OutputFormat) (t : Table) (items : List Json) : Finish :=
  { stdout := format.rows t (.arr items) }

/-- The end of a command that has data or fails. -/
def ofResult (format : OutputFormat) : Except Failure Json → Finish
  | .ok j => data format j
  | .error f => failed format f

end Finish

end MotifQuery.CommandLine
