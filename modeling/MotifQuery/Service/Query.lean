import MotifQuery.Service.Answer
import MotifQuery.Service.Basic
import MotifQuery.Service.Job

/-!
# `MotifQuery.Service.Query`: the queries of a service

A query fails as a whole only where its host id is unknown or no provider accepts its
host; every later failure stands in the answer. What can be refused without a look at the
graph is refused before a worker starts: a query that does not compile, then a directive
that names no aggregation, then a format that no graph is written in.
-/

set_option autoImplicit false

namespace MotifQuery.Service

variable {α β : Type}

/-- Answers a query on a host with the first provider that accepts it. -/
def onHost (s : Surroundings) (v : Service) (id : String)
    (answer : HostListing → Provider → α × Service) : Except Failure α × Service :=
  match v.route s id with
  | .error f => (.error f, v)
  | .ok (h, p) =>
    let (a, v) := answer h p
    (.ok a, v)

/-- Runs a job on a host, against what the provider prepares for the worker. -/
def run (s : Surroundings) (v : Service) (h : HostListing) (p : Provider) (job : Job α) :
    Except Failure α × Service :=
  match p.prepare s.now h.uri with
  | .error f => (.error f, v)
  | .ok prepared =>
    let (outcome, disk) := job.run s v.limits (prepared.getD p) h.uri v.disk
    (outcome, { v with disk })

/-- The stamp of an answer on a host. -/
def stamp (s : Surroundings) (id : String) : Stamp :=
  { hostId := id, time := s.now }

/-- Counts the vertices or edges of a host. -/
def size (s : Surroundings) (v : Service) (part : GraphPart) (id : String) :
    Except Failure SizeAnswer × Service :=
  v.onHost s id fun h p =>
    let (outcome, v) := v.run s h p (.size part)
    ({ stamp := stamp s id, part, outcome }, v)

/-- Finds the attributes of the vertices or edges of a host. -/
def schema (s : Surroundings) (v : Service) (part : GraphPart) (id : String) :
    Except Failure SchemaAnswer × Service :=
  v.onHost s id fun h p =>
    let (outcome, v) := v.run s h p (.schema part)
    ({ stamp := stamp s id, outcome }, v)

/-- Compiles a query; the host is not looked for. -/
def compile (s : Surroundings) (id : String) (question : Question) : CompileAnswer :=
  { stamp := stamp s id, question
    outcome := CompiledQuery.compile question.language question.text }

/-- Counts the matches of a query in a host. -/
def countMatches (s : Surroundings) (v : Service) (id : String) (question : Question) :
    Except Failure MatchCountAnswer × Service :=
  v.onHost s id fun h p =>
    -- no worker is started for a query that does not compile
    match CompiledQuery.compile question.language question.text with
    | .error f => ({ stamp := stamp s id, question, entities := [], outcome := .error f }, v)
    | .ok q =>
      let (outcome, v) := v.run s h p (.countMatches q)
      ({ stamp := stamp s id, question, entities := q.entities, outcome }, v)

/-- Finds the matches of a compiled query and aggregates them. -/
def aggregate (s : Surroundings) (v : Service) (h : HostListing) (p : Provider)
    (q : CompiledQuery) (a : Aggregation) :
    Except Failure (Nat × AggregatedResults) × Service :=
  let (found, v) := v.run s h p (.search q a.requiredAttribute)
  (found.bind fun f =>
    (a.apply s.seed f.attributes f.rows).map fun results => (f.rows.length, results), v)

/-- Finds the matches of a query in a host. -/
def search (s : Surroundings) (v : Service) (id : String) (question : Question)
    (aggregation : Option String) : Except Failure SearchAnswer × Service :=
  v.onHost s id fun h p =>
    let answer (entities : List String) (outcome : Except Failure (Nat × AggregatedResults)) :
        SearchAnswer :=
      { stamp := stamp s id, question, aggregation, entities
        volumetricData := h.volumetricData, outcome }
    match CompiledQuery.compile question.language question.text with
    | .error f => (answer [] (.error f), v)
    | .ok q =>
      match Aggregation.parse aggregation with
      | .error f => (answer q.entities (.error f), v)
      | .ok a =>
        let (outcome, v) := v.aggregate s h p q a
        (answer q.entities outcome, v)

/-- The formats that graphs are written in. -/
def downloadFormats : List String :=
  ["graphml"]

/-- The failure of a format that no graph is written in. -/
def unsupportedDownload (format : String) : Failure :=
  .invalidQuery
    ("Unsupported download format '" ++ format ++ "'. Supported: "
      ++ ", ".intercalate downloadFormats)
    origin

/-- Writes the graph of a host in a format. -/
def download (s : Surroundings) (v : Service) (id format : String) :
    Except Failure DownloadAnswer × Service :=
  v.onHost s id fun h p =>
    if downloadFormats.contains format then
      let (outcome, v) := v.run s h p (.download format)
      ({ stamp := stamp s id, format, outcome }, v)
    else
      ({ stamp := stamp s id, format, outcome := .error (unsupportedDownload format) }, v)

end MotifQuery.Service
