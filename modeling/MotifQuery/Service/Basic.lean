import MotifQuery.Host.Provider
import MotifQuery.Host.Registry
import MotifQuery.Host.Router

/-!
# `MotifQuery.Service.Basic`: a running service

A service holds the providers in routing order, the registered hosts, the limits of
workers, and the disk that it works on. `Service.ofConfig` makes it from a configuration:
providers first, then limits, then the uploads of earlier runs come back as unlisted hosts.
A query names a host by its id; the host has a URI, and the URI goes to the first provider
that accepts it.
-/

set_option autoImplicit false

namespace MotifQuery

/-- A running service. -/
structure Service where
  router : Router Provider := .empty
  registry : HostRegistry := {}
  limits : ResourceLimits := {}
  disk : Disk := .empty

/-- The routing of a public host. -/
structure HostRouting where
  id : String
  uri : String
  providerId : Option String
deriving DecidableEq

namespace HostRouting

/-- Does a provider accept the host? -/
def valid (h : HostRouting) : Bool :=
  h.providerId.isSome

/-- A routing as an object. -/
def toJson (h : HostRouting) : Json :=
  .record [
    ("id", .str h.id), ("uri", .str h.uri), ("provider_id", .ofString? h.providerId),
    ("valid", .bool h.valid)]

end HostRouting

/-- The unlisted host of an upload. -/
def UploadRecord.listing (u : UploadRecord) (name providerId : String) : HostListing :=
  { id := u.id, uri := u.uri, name, provider := Dict.empty.insert "id" providerId }

namespace Service

/-- The part of the program that answers queries. -/
def origin : String := "context"

/-- Makes the providers of a configuration one after the other. -/
def makeProviders (s : Surroundings) :
    List ProviderConfig → Router Provider → Disk → Except Failure (Router Provider) × Disk
  | [], router, d => (.ok router, d)
  | c :: rest, router, d =>
    match Provider.ofConfig s d c with
    | (.ok p, d) => makeProviders s rest (router.add c.id p) d
    | (.error f, d) => (.error f, d)

/-- Registers the living uploads of a provider. -/
def restore (now : Instant) (registry : HostRegistry) (id : String) : Provider → HostRegistry
  | .uploads h =>
    (h.list now).foldl (fun registry u => registry.add (u.listing u.givenName id)) registry
  | _ => registry

/-- The service of a configuration, and the disk also where there is none. -/
def ofConfig (s : Surroundings) (d : Disk) (c : ServerConfig) : Except Failure Service × Disk :=
  match makeProviders s c.providers .empty d with
  | (.error f, d) => (.error f, d)
  | (.ok router, d) =>
    match c.queryLimits.resolve s.totalRam with
    | .error f => (.error f, d)
    | .ok limits =>
      let registry := router.entries.foldl
        (fun registry (entry : String × Provider) => restore s.now registry entry.1 entry.2)
        { listed := c.hosts }
      (.ok { router, registry, limits, disk := d }, d)

/-- The first provider that accepts a URI, with its id. -/
def providerOf? (s : Surroundings) (v : Service) (uri : String) : Option (String × Provider) :=
  v.router.route? fun p => p.accepts s.now uri

/-- The host with an id. -/
def resolve (v : Service) (id : String) : Except Failure HostListing :=
  match v.registry.listing? id with
  | some h => .ok h
  | none => .error (.hostNotFound id origin)

/-- The host with an id and the provider of its graph. -/
def route (s : Surroundings) (v : Service) (id : String) :
    Except Failure (HostListing × Provider) := do
  let h ← v.resolve id
  match v.providerOf? s h.uri with
  | some (_, p) => pure (h, p)
  | none => throw (.providerNotFound h.uri origin)

/-- The routing of every public host. -/
def routings (s : Surroundings) (v : Service) : List HostRouting :=
  v.registry.listed.map fun h =>
    { id := h.id, uri := h.uri, providerId := (v.providerOf? s h.uri).map (·.1) }

/-- The public hosts. -/
def hosts (v : Service) : List Json :=
  v.registry.listed.map HostListing.summary

/-- The providers in routing order. -/
def providers (v : Service) : List Json :=
  v.router.entries.map fun (entry : String × Provider) => entry.2.summary entry.1

end Service

end MotifQuery
