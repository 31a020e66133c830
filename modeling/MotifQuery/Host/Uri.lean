import MotifQuery.Failure

/-!
# `MotifQuery.Host.Uri`: URIs of host graphs

A URI opens with the scheme of the provider it is for. What follows says which graph of
the provider is meant.
-/

set_option autoImplicit false

namespace MotifQuery

/-- The scheme of graphs in files. -/
def fileScheme : String := "file://"

/-- The scheme of graphs in property tables. -/
def propertyScheme : String := "opencypher://"

/-- The scheme of uploaded graphs. -/
def uploadScheme : String := "temp://"

/-- The scheme of graphs in object stores. -/
def objectScheme : String := "s3://"

/-- What follows the scheme in a URI. -/
def afterScheme (scheme origin uri : String) : Except Failure String :=
  match Text.after? scheme uri with
  | some rest => .ok rest
  | none =>
    .error (.user "unsupported_uri" ("URI " ++ uri ++ " does not start with " ++ scheme) origin)

end MotifQuery
