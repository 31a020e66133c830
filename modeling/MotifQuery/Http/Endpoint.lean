import MotifQuery.Graph.Schema
import MotifQuery.Http.Request

/-!
# `MotifQuery.Http.Endpoint`: what a path stands for

Every path stands for at most one endpoint, and every endpoint is served for one method.
Below the path of uploads any further text names an upload: its information where the
text ends so, and else the upload itself.
-/

set_option autoImplicit false

namespace MotifQuery.Http

/-- An endpoint. -/
inductive Endpoint where
  | status
  | providers
  | hosts
  | catalog
  | size (part : GraphPart)
  | schema (part : GraphPart)
  | compile
  | countMatches
  | search
  | download
  | upload
  | uploads
  | uploadInfo (id : String)
  | uploadItself (id : String)
deriving DecidableEq

namespace Endpoint

/-- The method that an endpoint is served for. -/
def method : Endpoint → Method
  | status | providers | hosts | catalog | uploads | uploadInfo _ => .get
  | size _ | schema _ | compile | countMatches | search | download | upload => .post
  | uploadItself _ => .delete

/-- The paths that stand for an endpoint each. -/
def fixedPaths : List (String × Endpoint) := [
  ("/", status),
  ("/providers/", providers), ("/providers", providers),
  ("/providers/hostlist", hosts),
  ("/queries/", catalog), ("/queries", catalog),
  ("/queries/vertices/count", size .vertices),
  ("/queries/vertices/attributes", schema .vertices),
  ("/queries/edges/count", size .edges),
  ("/queries/edges/attributes", schema .edges),
  ("/queries/motifs/_parse", compile),
  ("/queries/motifs/count", countMatches),
  ("/queries/motifs", search), ("/queries/motifs/", search),
  ("/queries/graph/download", download),
  ("/uploads/graph", upload),
  ("/uploads/temporary", uploads), ("/uploads/temporary/", uploads)]

/-- The endpoint below the path of uploads. -/
def ofUpload (rest : String) : Endpoint :=
  match Text.dropEnding? "/info".toList rest.toList with
  | some id => uploadInfo (String.ofList id)
  | none => uploadItself rest

/-- The endpoint that a path stands for. -/
def ofPath? (path : String) : Option Endpoint :=
  match (Text.after? "/uploads/temporary/" path).filter fun rest => !rest.isEmpty with
  -- the path of uploads itself, with nothing below it, is a fixed one
  | some rest => some (ofUpload rest)
  | none => fixedPaths.lookup path

end Endpoint

end MotifQuery.Http
