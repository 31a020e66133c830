import MotifQuery.Config.Basic

/-!
# `MotifQuery.Host.Registry`: the registered hosts

A registry holds the public hosts of a configuration, which are listed, and the unlisted
hosts of uploads, which are found only by their exact id. Every look-up tries the public
hosts first. Public hosts never change; an unlisted host replaces the one with its id in
place.
-/

set_option autoImplicit false

namespace MotifQuery

/-- The registered hosts. -/
structure HostRegistry where
  listed : List HostListing := []
  unlisted : List HostListing := []

/-- Puts a listing in the place of the first one with its id, or at the end. -/
def HostListing.replaceIn (new : HostListing) : List HostListing → List HostListing
  | [] => [new]
  | h :: rest => if h.id = new.id then new :: rest else h :: replaceIn new rest

namespace HostRegistry

/-- The first listing with a property, public ones before unlisted ones. -/
def find? (r : HostRegistry) (p : HostListing → Bool) : Option HostListing :=
  (r.listed.find? p).or (r.unlisted.find? p)

/-- The listing with an id. -/
def listing? (r : HostRegistry) (id : String) : Option HostListing :=
  r.find? fun h => h.id == id

/-- The URI of the host with an id. -/
def uri? (r : HostRegistry) (id : String) : Option String :=
  (r.listing? id).map (·.uri)

/-- The name of the first host with a URI. -/
def name? (r : HostRegistry) (uri : String) : Option String :=
  (r.find? fun h => h.uri == uri).map (·.name)

/-- The unlisted host with an id. -/
def unlisted? (r : HostRegistry) (id : String) : Option HostListing :=
  r.unlisted.find? fun h => h.id == id

/-- Registers an unlisted host. -/
def add (r : HostRegistry) (new : HostListing) : HostRegistry :=
  { r with unlisted := new.replaceIn r.unlisted }

/-- Removes the unlisted hosts with an id. -/
def remove (r : HostRegistry) (id : String) : HostRegistry :=
  { r with unlisted := r.unlisted.filter fun h => h.id != id }

/-- Does the removal of an id take a host away? -/
def removes (r : HostRegistry) (id : String) : Bool :=
  r.unlisted.length != (r.remove id).unlisted.length

end HostRegistry

/-- Id and name of a host. -/
def HostListing.summary (h : HostListing) : Json :=
  .record [("id", .str h.id), ("name", .str h.name)]

end MotifQuery
