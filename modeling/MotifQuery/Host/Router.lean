import MotifQuery.Config.Basic

/-!
# `MotifQuery.Host.Router`: which provider serves a URI

A router keeps providers under distinct ids in the order in which the ids were first
registered. A URI goes to the first provider that accepts it, so an earlier provider
shadows a later one. Registering an id again replaces its provider in place.
-/

set_option autoImplicit false

namespace MotifQuery

/-- Providers under their ids, in routing order. -/
structure Router (π : Type) where
  entries : List (String × π) := []

namespace Router

variable {π : Type}

/-- The router without providers. -/
def empty : Router π := {}

/-- Puts an entry in the place of the one with its id, or at the end. -/
def replace (id : String) (provider : π) : List (String × π) → List (String × π)
  | [] => [(id, provider)]
  | entry :: rest =>
    if entry.1 = id then (id, provider) :: rest else entry :: replace id provider rest

/-- Registers a provider. -/
def add (r : Router π) (id : String) (provider : π) : Router π :=
  { entries := replace id provider r.entries }

/-- The first entry whose provider satisfies a condition. -/
def route? (accepts : π → Bool) (r : Router π) : Option (String × π) :=
  r.entries.find? fun entry => accepts entry.2

/-- The provider with an id. -/
def get? (r : Router π) (id : String) : Option π :=
  (r.entries.find? fun entry => entry.1 == id).map (·.2)

/-- The ids in routing order. -/
def ids (r : Router π) : List String :=
  r.entries.map (·.1)

/-- The first provider that satisfies a condition. -/
def provider? (accepts : π → Bool) (r : Router π) : Option π :=
  (r.entries.find? fun entry => accepts entry.2).map (·.2)

/-- The id of the first provider that satisfies a condition. -/
def providerId? (accepts : π → Bool) (r : Router π) : Option String :=
  (r.entries.find? fun entry => accepts entry.2).map (·.1)

/-- For every host, does a provider accept its URI? -/
def validate (accepts : String → π → Bool) (r : Router π) (hosts : List HostListing) : List Bool :=
  hosts.map fun h => (r.provider? (accepts h.uri)).isSome

end Router

end MotifQuery
