import MotifQuery.Host.ObjectHost
import MotifQuery.Host.PropertyTables
import MotifQuery.Host.Uploads
import MotifQuery.Motif.Parser
import MotifQuery.Motif.Search
import MotifQuery.Worker.Outcome

/-!
# `MotifQuery.Host.Provider`: where host graphs come from

A provider accepts some URIs and loads their graphs: from files, from an object store,
from property tables, or from uploads. A worker must not touch the table of uploads, so an
upload is resolved beforehand and the worker gets a snapshot that serves that one upload.
A fixed provider gives one graph, or one failure, whatever is asked of it.
-/

set_option autoImplicit false

namespace MotifQuery

/-- What a program finds around it. -/
structure Surroundings where
  now : Instant
  /-- An id that no upload has. -/
  freshId : String
  /-- Where drawing starts. -/
  seed : Nat
  /-- How a worker with the limits ends, where the test tells whether its work ends within a
  number of steps. -/
  fate : ResourceLimits → (Nat → Bool) → WorkerFate
  /-- The object stores by their endpoints. -/
  stores : String → ObjectStore
  /-- The directory of the system for files that do not stay. -/
  tempDir : String
  /-- The directory of the user for objects fetched before. -/
  cacheDir : String
  /-- The memory of the machine in bytes. -/
  totalRam : Nat

/-- A provider that gives one graph or one failure. -/
structure FixedHost where
  type : String
  opening : String := ""
  ending : String := ""
  graph : Except Failure HostGraph := .ok (.empty true)

/-- A provider of host graphs. -/
inductive Provider where
  /-- Graph files whose paths begin with a text. -/
  | files (root : String)
  | objects (endpoint : String) (h : ObjectHost)
  | propertyTables (options : OpenCypherOptions)
  | uploads (h : UploadHost)
  /-- One upload, by its URI and the path of its file. -/
  | snapshot (uri path : String)
  | fixed (h : FixedHost)

namespace Provider

/-- The type of a provider. -/
def type : Provider → String
  | files _ => "FilesystemGraphHostProvider"
  | objects _ _ => "S3GraphMLHostProvider"
  | propertyTables _ => "OpenCypherHostProvider"
  | uploads _ | snapshot _ _ => "TemporaryGraphHostProvider"
  | fixed h => h.type

/-- Does the provider serve the URI? -/
def accepts (now : Instant) (uri : String) : Provider → Bool
  | files root => Text.startsWith uri (fileScheme ++ root) && hasGraphSuffix uri
  | objects _ h => h.accepts uri
  | propertyTables _ => Text.startsWith uri propertyScheme
  | uploads h => h.accepts now uri
  | snapshot served _ => uri == served
  | fixed h => Text.startsWith uri h.opening && Text.endsWith uri h.ending

/-- Loads the graph of a file URI. -/
def loadFile (d : Disk) (uri : String) : Except Failure HostGraph := do
  let path ← afterScheme fileScheme "provider:filesystem" uri
  d.readGraph path

/-- Loads the graph of a URI; only an object store changes the disk. -/
def load (s : Surroundings) (d : Disk) (uri : String) :
    Provider → Except Failure HostGraph × Disk
  | files _ => (loadFile d uri, d)
  | objects endpoint h =>
    let loading := h.load (s.stores endpoint) d uri
    (loading.graph, loading.disk)
  | propertyTables options => (PropertyTables.load options d uri, d)
  | uploads h => (h.load s.now d uri, d)
  | snapshot served path =>
    if uri = served then (d.readGraph path, d)
    else
      (.error (.backendIo ("Upload snapshot for " ++ served ++ " cannot serve " ++ uri)
        UploadHost.origin), d)
  | fixed h => (h.graph, d)

/-- What a worker asks for the URI, where that is not the provider itself. -/
def prepare (now : Instant) (uri : String) (p : Provider) : Except Failure (Option Provider) :=
  match p with
  | uploads h => (h.resolve now uri).map fun u => some (.snapshot uri u.path)
  | _ => .ok none

/-- Can graphs be uploaded to the provider? -/
def holdsUploads : Provider → Bool
  | uploads _ => true
  | _ => false

/-- The provider of a kind. -/
def ofKind (s : Surroundings) (d : Disk) : ProviderKind → Except Failure Provider × Disk
  | .filesystem options => (.ok (.files options.root), d)
  | .s3 options =>
    match ObjectHost.ofOptions options s.cacheDir d with
    | .ok (h, d) => (.ok (.objects options.endpoint h), d)
    | .error f => (.error f, d)
  | .openCypher options => (.ok (.propertyTables options), d)
  | .temporary options =>
    let (opened, d) := UploadHost.ofOptions options s.tempDir s.now d
    (opened.map .uploads, d)

/-- The provider of a configuration. -/
def ofConfig (s : Surroundings) (d : Disk) (c : ProviderConfig) :
    Except Failure Provider × Disk :=
  match c.kind with
  | .ok kind => ofKind s d kind
  | .error f => (.error f, d)

/-- Id and type of a provider. -/
def summary (id : String) (p : Provider) : Json :=
  .record [("id", .str id), ("provider_type", .str p.type)]

end Provider

end MotifQuery
