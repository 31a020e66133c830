import MotifQuery.CommandLine.Flag
import MotifQuery.Graph.Schema

/-!
# `MotifQuery.CommandLine.Command`: commands

A command is named by a path of words. The table says, for every path, which flags and
which arguments it takes; a path that others continue needs one of them, except the empty
one. `Command` is what a path with its flags and arguments asks for.
-/

set_option autoImplicit false

namespace MotifQuery.CommandLine

/-- An argument of a command. -/
structure Argument where
  name : String
  kind : ValueKind
deriving DecidableEq

/-- What stands behind a path of words. -/
structure CommandShape where
  path : List String
  about : String
  flags : List Flag := []
  arguments : List Argument := []
deriving DecidableEq

namespace CommandShape

/-- The id of a host. -/
def hostId : Argument := ⟨"HOST_ID", .text⟩

/-- The id of an upload. -/
def uploadId : Argument := ⟨"TEMP_ID", .text⟩

/-- The flags for a query and its language. -/
def queryFlags : List Flag := [.query, .queryFile, .queryType]

/-- The shape of the empty path. -/
def root : CommandShape :=
  { path := [], about := "Query host graphs for motifs, counts, and attribute schemas." }

/-- All commands. -/
def all : List CommandShape := [
  root,
  { path := ["version"], about := "Show version information" },
  { path := ["serve"], about := "Run the HTTP API server", flags := [.bind, .port] },
  { path := ["providers"], about := "Registered host providers" },
  { path := ["providers", "list"], about := "List providers in routing order" },
  { path := ["hosts"], about := "Configured host graphs" },
  { path := ["hosts", "list"], about := "List public hosts" },
  { path := ["hosts", "validate"], about := "Report which hosts a provider accepts" },
  { path := ["query"], about := "Run a query against a host" },
  { path := ["query", "vertex-count"], about := "Count the vertices of a host",
    arguments := [hostId] },
  { path := ["query", "edge-count"], about := "Count the edges of a host",
    arguments := [hostId] },
  { path := ["query", "vertex-attributes"], about := "Vertex attribute names and types",
    arguments := [hostId] },
  { path := ["query", "edge-attributes"], about := "Edge attribute names and types",
    arguments := [hostId] },
  { path := ["query", "motif-parse"], about := "Compile a motif without running it",
    flags := queryFlags },
  { path := ["query", "motif-count"], about := "Count motif matches in a host",
    flags := queryFlags, arguments := [hostId] },
  { path := ["query", "motifs"],
    about := "Find motif matches in a host, optionally aggregated",
    flags := queryFlags ++ [.aggregation], arguments := [hostId] },
  { path := ["query", "download"], about := "Export a host graph",
    flags := [.exportFormat, .output], arguments := [hostId] },
  { path := ["upload"], about := "Temporary uploaded graphs" },
  { path := ["upload", "add"], about := "Upload a graph file as a temporary host",
    flags := [.name], arguments := [⟨"PATH", .path⟩] },
  { path := ["upload", "list"], about := "List live uploads" },
  { path := ["upload", "info"], about := "Show one upload", arguments := [uploadId] },
  { path := ["upload", "remove"], about := "Delete an upload", arguments := [uploadId] }]

/-- The shape behind a path. -/
def ofPath? (path : List String) : Option CommandShape :=
  all.find? fun shape => shape.path == path

/-- The shapes that continue a path by one word. -/
def continuations (path : List String) : List CommandShape :=
  all.filter fun shape => !shape.path.isEmpty && shape.path.dropLast == path

/-- Does the shape take the flag? -/
def allows (shape : CommandShape) (flag : Flag) : Bool :=
  Flag.everywhere.contains flag || shape.flags.contains flag

/-- The shape as it is called. -/
def usage (shape : CommandShape) : String :=
  let words := "motifstudio" :: shape.path ++ ["[OPTIONS]"]
  let words := words ++ shape.arguments.map fun a => "<" ++ a.name ++ ">"
  let words := if (continuations shape.path).isEmpty then words else words ++ ["<COMMAND>"]
  "Usage: " ++ " ".intercalate words

/-- A line of help: a word and what it is for. -/
def helpLine (word about : String) : String :=
  "  " ++ word ++ String.ofList (List.replicate (24 - word.length) ' ') ++ about ++ "\n"

/-- The word for a flag in help. -/
def flagWord (flag : Flag) : String :=
  let start := match flag.letter? with
    | some c => "-" ++ String.ofList [c] ++ ", "
    | none => "    "
  start ++ "--" ++ flag.long

/-- The help for a shape. -/
def help (shape : CommandShape) : String :=
  let commands := (continuations shape.path).map fun c =>
    helpLine (c.path.getLastD "") c.about
  let flags := (shape.flags ++ Flag.everywhere).map fun f => helpLine (flagWord f) f.about
  shape.about ++ "\n\n" ++ shape.usage ++ "\n"
    ++ (if commands.isEmpty then "" else "\nCommands:\n" ++ String.join commands)
    ++ "\nOptions:\n" ++ String.join flags

end CommandShape

/-- Where the text of a query is. -/
inductive QuerySource where
  | given (text : String)
  | file (path : String)
deriving DecidableEq

/-- What is asked for. -/
inductive Command where
  /-- Nothing in particular. -/
  | greet
  | version
  | serve (address : String) (port : Nat)
  | providers
  | hosts
  | validate
  | size (part : GraphPart) (hostId : String)
  | schema (part : GraphPart) (hostId : String)
  | compile (source : QuerySource) (language : QueryLanguage)
  | countMatches (hostId : String) (source : QuerySource) (language : QueryLanguage)
  | search (hostId : String) (source : QuerySource) (language : QueryLanguage)
      (aggregation : Option String)
  | download (hostId format : String) (output : Option String)
  | uploadAdd (path : String) (name : Option String)
  | uploadList
  | uploadInfo (id : String)
  | uploadRemove (id : String)
deriving DecidableEq

namespace Command

/-- The value of a flag that was given last. -/
def valueOf? (values : List (Flag × String)) (flag : Flag) : Option String :=
  values.reverse.lookup flag

/-- The source of a query: its text or its file, not both. -/
def sourceOf? (values : List (Flag × String)) : Option QuerySource :=
  match valueOf? values .query, valueOf? values .queryFile with
  | some text, none => some (.given text)
  | none, some path => some (.file path)
  | _, _ => none

/-- The command of a path with its flags and arguments; `none` where something that it
needs is missing or two of its flags exclude each other. -/
def of? (path : List String) (values : List (Flag × String)) (arguments : List String) :
    Option Command :=
  let value? := valueOf? values
  let language := ((value? .queryType).bind QueryLanguage.ofName?).getD .dotmotif
  match path, arguments with
  | [], [] => some greet
  | ["version"], [] => some version
  | ["serve"], [] =>
    some (serve ((value? .bind).getD "127.0.0.1") (((value? .port).bind readPort?).getD 5000))
  | ["providers", "list"], [] => some providers
  | ["hosts", "list"], [] => some hosts
  | ["hosts", "validate"], [] => some validate
  | ["query", "vertex-count"], [id] => some (size .vertices id)
  | ["query", "edge-count"], [id] => some (size .edges id)
  | ["query", "vertex-attributes"], [id] => some (schema .vertices id)
  | ["query", "edge-attributes"], [id] => some (schema .edges id)
  | ["query", "motif-parse"], [] => (sourceOf? values).map fun source => compile source language
  | ["query", "motif-count"], [id] =>
    (sourceOf? values).map fun source => countMatches id source language
  | ["query", "motifs"], [id] =>
    (sourceOf? values).map fun source => search id source language (value? .aggregation)
  | ["query", "download"], [id] =>
    some (download id ((value? .exportFormat).getD "graphml") (value? .output))
  | ["upload", "add"], [path] => some (uploadAdd path (value? .name))
  | ["upload", "list"], [] => some uploadList
  | ["upload", "info"], [id] => some (uploadInfo id)
  | ["upload", "remove"], [id] => some (uploadRemove id)
  | _, _ => none

end Command

end MotifQuery.CommandLine
