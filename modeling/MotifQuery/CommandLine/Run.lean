import MotifQuery.CommandLine.Invocation
import MotifQuery.CommandLine.Output
import MotifQuery.Config.File
import MotifQuery.Http.Handler

/-!
# `MotifQuery.CommandLine.Run`: running commands

Every command but the greeting and the version reads the configuration and makes a service
first. `run` gives what the command leaves behind and the disk after it. To serve requests
is work for the caller, who gets the service; and a command breaks down where an upload
would expire beyond the calendar.
-/

set_option autoImplicit false

namespace MotifQuery.CommandLine

/-- How a run ends. -/
inductive Ending where
  | finished (f : Finish)
  /-- Requests are to be served at an address; a failure to do so is told in the format,
  after the warning. -/
  | serving (address : String) (port : Nat) (format : OutputFormat) (warning : String)
      (v : Service)
  | brokeDown

/-- The program and its version in one line. -/
def versionLine : String :=
  Http.programName ++ " " ++ Http.programVersion ++ "\n"

/-- The end of a command that asks for the version. -/
def tellVersion (format : OutputFormat) : Finish :=
  match format with
  | .table => { stdout := versionLine }
  | .json | .yaml =>
    .data format (.record [("name", .str Http.programName), ("version", .str Http.programVersion)])

/-- The end of a command that asks for help. -/
def tellHelp (format : OutputFormat) (shape : CommandShape) : Finish :=
  match format with
  | .table => { stdout := shape.help }
  | .json | .yaml => .data format (.record [("help", .str shape.help)])

/-- The end of words that make no command. -/
def tellMisuse (shape : CommandShape) (fault : String) : Finish :=
  { exit := 1, stderr := "error: " ++ fault ++ "\n\n" ++ shape.usage ++ "\n" }

/-- The end of words that are not run. -/
def Stop.finish (format : OutputFormat) : Stop → Finish
  | help shape => tellHelp format shape
  | version => tellVersion format
  | misuse shape fault => tellMisuse shape fault

/-- The end of a query: its answer is written also where it fails. -/
def tellReply (format : OutputFormat) : Except Failure Reply → Finish
  | .error f => .failed format f
  | .ok reply =>
    match reply.failure? with
    | none => .data format reply.document
    | some f =>
      { exit := 1, stdout := format.data reply.document
        stderr := if format = .table then "Query failed: " ++ f.message ++ "\n" else "" }

/-- The text of a query. -/
def QuerySource.read (d : Disk) : QuerySource → Except Failure String
  | given text => .ok text
  | file path =>
    match d.readText path with
    | .ok text => .ok text
    | .error fault =>
      .error (.user "motif_file_unreadable"
        ("Cannot read motif file " ++ path ++ ": " ++ fault.message) "cli:query")

/-- A field of an object as a text. -/
def cell (j : Json) (key : String) : String :=
  ((j.field? key).bind Json.asString?).getD ""

/-- A table of objects by some of their fields. -/
def tableOf (header : List String) (keys : List String) (rows : List Json) : Table :=
  { header, rows := rows.map fun j => keys.map (cell j) }

/-- The table of the routing of hosts. -/
def routingTable (hosts : List HostRouting) : Table where
  header := ["ID", "URI", "PROVIDER", "STATUS"]
  rows := hosts.map fun h =>
    [h.id, h.uri, h.providerId.getD "-", if h.valid then "ok" else "unroutable"]

/-- The table of uploads. -/
def uploadTable (uploads : List UploadListing) : Table where
  header := ["ID", "NAME", "BYTES", "EXPIRES"]
  rows := uploads.map fun u =>
    [u.record.id, u.name, Number.natText u.record.size, u.record.expiresAt.minuteText]

/-- The end of a query whose text is read first, and the service after it. -/
def tellQuery {α : Type} (format : OutputFormat) (v : Service) (source : QuerySource)
    (run : String → Except Failure α × Service) (reply : α → Reply) : Finish × Service :=
  match source.read v.disk with
  | .error f => (.failed format f, v)
  | .ok text =>
    let (result, v) := run text
    (tellReply format (result.map reply), v)

/-- The end of a download, and the service after it; a graph that arrives may go to a
file. -/
def tellDownload (s : Surroundings) (format : OutputFormat) (v : Service)
    (hostId graphFormat : String) (output : Option String) : Finish × Service :=
  let (result, v) := v.download s hostId graphFormat
  match output, result with
  -- a file is written only for a graph that arrived
  | some path, .ok { outcome := .ok graph, .. } =>
    let bytes := Text.bytesOf graph
    match v.disk.write path bytes with
    | .error fault => (.failed format fault.toFailure, v)
    | .ok disk =>
      (.data format (.record [
        ("bytes", .nat bytes.length), ("format", .str graphFormat), ("host_id", .str hostId),
        ("path", .str path)]), { v with disk })
  | _, result => (tellReply format (result.map DownloadAnswer.reply), v)

/-- The end of an upload, and the service after it. -/
def tellUpload (s : Surroundings) (format : OutputFormat) (v : Service) (path : String)
    (name : Option String) : Ending × Service :=
  match v.disk.read path with
  | .error fault =>
    (.finished (.failed format (.user "upload_file_unreadable"
      ("Cannot read " ++ path ++ ": " ++ fault.message) "cli:upload")), v)
  | .ok content =>
    match v.upload s content ((fileName? path).getD "upload.graphml") name with
    | (.ok receipt, v) => (.finished (.data format receipt.toJson), v)
    | (.error (.refused f), v) => (.finished (.failed format f), v)
    | (.error .beyondCalendar, v) => (.brokeDown, v)

/-- Serves a command with a service. -/
def perform (s : Surroundings) (format : OutputFormat) (v : Service) :
    Command → Ending × Service
  | .greet =>
    (.finished { stdout := versionLine ++ "Use --help for usage information.\n" }, v)
  | .version => (.finished (tellVersion format), v)
  | .serve address port =>
    (.serving address port format
      (if format = .table then ""
        else "Warning: 'serve' always logs to stderr; output format is ignored.\n") v, v)
  | .providers =>
    (.finished (.rows format (tableOf ["ID", "TYPE"] ["id", "provider_type"] v.providers)
      v.providers), v)
  | .hosts =>
    (.finished (.rows format (tableOf ["ID", "NAME"] ["id", "name"] v.hosts) v.hosts), v)
  | .validate =>
    let hosts := v.routings s
    let f := Finish.rows format (routingTable hosts) (hosts.map HostRouting.toJson)
    (.finished (if hosts.all HostRouting.valid then f else { f with exit := 1 }), v)
  | .size part id =>
    let (result, v) := v.size s part id
    (.finished (tellReply format (result.map SizeAnswer.reply)), v)
  | .schema part id =>
    let (result, v) := v.schema s part id
    (.finished (tellReply format (result.map SchemaAnswer.reply)), v)
  | .compile source language =>
    let (f, v) := tellQuery format v source
      (fun text => (.ok (Service.compile s "" { text, language }), v)) CompileAnswer.reply
    (.finished f, v)
  | .countMatches id source language =>
    let (f, v) := tellQuery format v source
      (fun text => v.countMatches s id { text, language }) MatchCountAnswer.reply
    (.finished f, v)
  | .search id source language aggregation =>
    let (f, v) := tellQuery format v source
      (fun text => v.search s id { text, language } aggregation) SearchAnswer.reply
    (.finished f, v)
  | .download id graphFormat output =>
    let (f, v) := tellDownload s format v id graphFormat output
    (.finished f, v)
  | .uploadAdd path name => tellUpload s format v path name
  | .uploadList =>
    match v.uploads s with
    | .ok uploads =>
      (.finished (.rows format (uploadTable uploads) (uploads.map UploadListing.toJson)), v)
    | .error f => (.finished (.failed format f), v)
  | .uploadInfo id =>
    (.finished (.ofResult format ((v.uploadInfo s id).map UploadListing.toJson)), v)
  | .uploadRemove id =>
    let (result, v) := v.cleanup s id
    (.finished (.ofResult format (result.map fun _ => Service.cleanupReceipt id)), v)

/-- Does the command need a service? -/
def Command.needsService : Command → Bool
  | greet | version => false
  | _ => true

/-- Runs an invocation. -/
def Invocation.run (s : Surroundings) (d : Disk) (i : Invocation) : Ending × Disk :=
  if i.command.needsService then
    match ServerConfig.load d i.configPath with
    | .error f => (.finished (.failed i.format f), d)
    | .ok config =>
      match Service.ofConfig s d config with
      | (.error f, d) => (.finished (.failed i.format f), d)
      -- the disk is part of the service from here on
      | (.ok v, _) =>
        let (ending, v) := perform s i.format v i.command
        (ending, v.disk)
  else ((perform s i.format {} i.command).1, d)

/-- Runs the words of a command line. -/
def run (s : Surroundings) (d : Disk) (fromEnvironment : Option String) (words : List String) :
    Ending × Disk :=
  match Invocation.read fromEnvironment words with
  | .error stop => (.finished (stop.finish (Invocation.guessFormat words)), d)
  | .ok i => i.run s d

/-- The failure to listen at an address. -/
def bindFailed (reason : String) : Failure :=
  .system "server_bind_failed" reason "server:serve"

/-- The end of a command that cannot serve requests. -/
def cannotServe (format : OutputFormat) (warning reason : String) : Finish :=
  let f := bindFailed reason
  { exit := exitOf f, stderr := warning ++ format.failure f }

end MotifQuery.CommandLine
