import MotifQuery.Config.Limits
import MotifQuery.Config.Source

/-!
# `MotifQuery.Config.Basic`: configurations

A configuration lists providers, public hosts and the limits of queries. A provider has an
id, the name of its type, and arguments that its type decodes. `validate` accepts a
configuration when the provider ids differ, every provider can be decoded, and the host
ids differ, checked in this order.
-/

set_option autoImplicit false

namespace MotifQuery

/-- A registered host graph. -/
structure HostListing where
  id : String
  uri : String
  name : String
  provider : Dict String := ∅
  volumetricData : Dict Json := ∅
deriving DecidableEq

/-- A listing as an object. -/
def HostListing.toJson (h : HostListing) : Json :=
  .ofFields [
    ("id", .str h.id),
    ("uri", .str h.uri),
    ("name", .str h.name),
    ("provider", .object (h.provider.map .str)),
    ("volumetric_data", .object h.volumetricData)]

/-- Options of a provider of graph files. -/
structure FilesystemOptions where
  root : String := ""
deriving DecidableEq

/-- Options of a provider of graphs in an object store. -/
structure S3Options where
  bucket : String
  endpoint : String := "https://s3.amazonaws.com"
  cache : Bool := true
  cacheDir : Option String := none
deriving DecidableEq

/-- Options of a provider of graphs in property tables. -/
structure OpenCypherOptions where
  vertexStem : String := "vert"
  edgeStem : String := "edge"
deriving DecidableEq

/-- Options of a provider of uploads. -/
structure TemporaryOptions where
  tempDir : Option String := none
  expirationDays : Nat := 14
deriving DecidableEq

/-- The options of a provider by its type. -/
inductive ProviderKind where
  | filesystem (options : FilesystemOptions)
  | s3 (options : S3Options)
  | openCypher (options : OpenCypherOptions)
  | temporary (options : TemporaryOptions)
deriving DecidableEq

namespace ProviderKind

open Source

variable {δ : Type}

/-- Reads the options of a provider of graph files. -/
def filesystem? (s : Source δ) (node : δ) : Option FilesystemOptions :=
  match s.fields? ["root"] node with
  | some [root] => do
    let root ← orElse "" s.text? root
    pure { root }
  | _ => none

/-- Reads the options of a provider of graphs in an object store. -/
def s3? (s : Source δ) (node : δ) : Option S3Options :=
  match s.fields? ["bucket", "endpoint", "cache", "cache_dir"] node with
  | some [bucket, endpoint, cache, cacheDir] => do
    let bucket ← require s.text? bucket
    let endpoint ← orElse "https://s3.amazonaws.com" s.text? endpoint
    let cache ← orElse true s.bool? cache
    let cacheDir ← s.optional none s.text? cacheDir
    pure { bucket, endpoint, cache, cacheDir }
  | _ => none

/-- Reads the options of a provider of graphs in property tables. -/
def openCypher? (s : Source δ) (node : δ) : Option OpenCypherOptions :=
  match s.fields? ["vertex_prefix", "edge_prefix"] node with
  | some [vertexStem, edgeStem] => do
    let vertexStem ← orElse "vert" s.text? vertexStem
    let edgeStem ← orElse "edge" s.text? edgeStem
    pure { vertexStem, edgeStem }
  | _ => none

/-- Reads the options of a provider of uploads. -/
def temporary? (s : Source δ) (node : δ) : Option TemporaryOptions :=
  match s.fields? ["temp_dir", "expiration_days"] node with
  | some [tempDir, expirationDays] => do
    let tempDir ← s.optional none s.text? tempDir
    let expirationDays ←
      orElse 14 (fun node => (s.natural? node).filter (· < Nat.pow 2 32)) expirationDays
    pure { tempDir, expirationDays }
  | _ => none

end ProviderKind

/-- A provider as configured. -/
structure ProviderConfig where
  id : String
  type : String
  arguments : Json := .null
deriving DecidableEq

namespace ProviderConfig

/-- The failure of arguments that do not decode. -/
def invalidArguments (p : ProviderConfig) : Failure :=
  (Failure.config "invalid_provider_arguments"
    ("Invalid arguments for provider '" ++ p.id ++ "': not of the expected form")
    "config").withContext "provider_id" p.id

/-- The failure of a type that is none. -/
def unknownType (p : ProviderConfig) : Failure :=
  ((Failure.config "unknown_provider_type" ("Unknown provider type '" ++ p.type ++ "'")
    "config").withContext "provider_id" p.id).withHint
    ("Use one of: filesystem, s3, opencypher, temporary "
      ++ "(or their FilesystemGraphHostProvider-style class names)")

/-- The kind of a provider; arguments that are null count as none. -/
def kind (p : ProviderConfig) : Except Failure ProviderKind :=
  let arguments := match p.arguments with
    | .null => .obj []
    | other => other
  let decoded {α : Type} (read? : Source Json → Json → Option α) (wrap : α → ProviderKind) :
      Except Failure ProviderKind :=
    match read? Json.source arguments with
    | some options => .ok (wrap options)
    | none => .error p.invalidArguments
  if p.type = "FilesystemGraphHostProvider" ∨ p.type = "filesystem" then
    decoded ProviderKind.filesystem? .filesystem
  else if p.type = "S3GraphMLHostProvider" ∨ p.type = "s3" then decoded ProviderKind.s3? .s3
  else if p.type = "OpenCypherHostProvider" ∨ p.type = "opencypher" then
    decoded ProviderKind.openCypher? .openCypher
  else if p.type = "TemporaryGraphHostProvider" ∨ p.type = "temporary" then
    decoded ProviderKind.temporary? .temporary
  else .error p.unknownType

end ProviderConfig

/-- A configuration. -/
structure ServerConfig where
  providers : List ProviderConfig := []
  hosts : List HostListing := []
  queryLimits : QueryLimits := {}

namespace ServerConfig

open Source

variable {δ : Type}

/-- Reads a provider at the given depth. -/
def provider? (s : Source δ) (depth : Nat) (node : δ) : Option ProviderConfig :=
  match s.fields? ["id", "type", "arguments"] node with
  | some [id, type, arguments] => do
    let id ← require s.text? id
    let type ← require s.text? type
    let arguments ← orElse .null (s.value? depth) arguments
    pure { id, type, arguments }
  | _ => none

/-- Reads a listing at the given depth. -/
def listing? (s : Source δ) (depth : Nat) (node : δ) : Option HostListing :=
  match s.fields? ["id", "uri", "name", "provider", "volumetric_data"] node with
  | some [id, uri, name, provider, volumetricData] => do
    let id ← require s.text? id
    let uri ← require s.text? uri
    let name ← require s.text? name
    let provider ← orElse ∅ (s.dict? s.text?) provider
    let volumetricData ← orElse ∅ (s.dict? (s.value? (depth - 1))) volumetricData
    pure { id, uri, name, provider, volumetricData }
  | _ => none

/-- Reads the limits of queries. -/
def limits? (s : Source δ) (node : δ) : Option QueryLimits :=
  match s.fields? ["max_ram_pct", "max_ram_bytes", "max_duration_seconds"] node with
  | some [part, bytes, seconds] => do
    let maxRamPart ← orElse 0.5 s.double? part
    let maxRamBytes ← s.optional none s.natural? bytes
    let maxSeconds ← s.optional (some 120.0) s.double? seconds
    pure { maxRamPart, maxRamBytes, maxSeconds }
  | _ => none

/-- Reads a configuration. -/
def ofSource? (s : Source δ) (node : δ) : Option ServerConfig :=
  match s.fields? ["providers", "hosts", "query_limits"] node with
  | some [providers, hosts, limits] => do
    let depth := Json.depthLimit - 3
    let providers ← orElse [] (s.list? (provider? s depth)) providers
    let hosts ← orElse [] (s.list? (listing? s depth)) hosts
    let queryLimits ← orElse {} (limits? s) limits
    pure { providers, hosts, queryLimits }
  | _ => none

/-- The first id that stands twice. -/
def firstRepeat? : List String → Option String
  | [] => none
  | ids => ids.zipIdx.findSome? fun (id, i) => if (ids.take i).contains id then some id else none

/-- Checks providers one after the other against the ids seen. -/
def validateProviders : List String → List ProviderConfig → Except Failure Unit
  | _, [] => .ok ()
  | seen, p :: rest =>
    if seen.contains p.id then
      .error (.config "duplicate_provider_id"
        ("Provider id '" ++ p.id ++ "' appears more than once") "config")
    else
      match p.kind with
      | .error f => .error f
      | .ok _ => validateProviders (p.id :: seen) rest

/-- Checks a configuration. -/
def validate (c : ServerConfig) : Except Failure Unit :=
  match validateProviders [] c.providers with
  | .error f => .error f
  | .ok () =>
    match firstRepeat? (c.hosts.map (·.id)) with
    | some id =>
      .error (.config "duplicate_host_id" ("Host id '" ++ id ++ "' appears more than once")
        "config")
    | none => .ok ()

/-- A configuration that passes the checks. -/
def validated (c : ServerConfig) : Except Failure ServerConfig :=
  match c.validate with
  | .ok () => .ok c
  | .error f => .error f

/-- Reads a configuration in JSON. -/
def ofJsonText (raw : String) : Except Failure ServerConfig :=
  match (Json.Document.parse? raw.toList).bind (ofSource? Json.Document.source) with
  | some c => c.validated
  | none =>
    .error (.config "config_parse_failed" "Invalid JSON config: not of the expected form"
      "config")

end ServerConfig

end MotifQuery
