import MotifQuery.Csv.EdgeList
import MotifQuery.Disk.Basic
import MotifQuery.GraphML.Reader
import MotifQuery.Gzip.Member

/-!
# `MotifQuery.Disk.GraphFile`: graphs in files

The ending of a file's name says how its graph is written: GraphML, packed GraphML or an
edge list. `decodeGraph` reads bytes by such an ending; `Disk.readGraph` reads a file. A
directory can be opened but gives no bytes, which a reader notices as text that breaks
off.
-/

set_option autoImplicit false

namespace MotifQuery

open Text

/-- How the graph in a file is written. -/
inductive GraphFormat where
  | graphML
  | packedGraphML
  | edgeList
deriving DecidableEq, Repr

namespace GraphFormat

/-- The formats, in the order in which they are listed. -/
def all : List GraphFormat := [graphML, packedGraphML, edgeList]

/-- The ending of the names of files in a format. -/
def suffix : GraphFormat → String
  | graphML => ".graphml"
  | packedGraphML => ".graphml.gz"
  | edgeList => ".csv"

/-- The format that the ending of a name says. -/
def ofName? (name : String) : Option GraphFormat :=
  -- no suffix ends another, so the order does not matter
  all.find? fun f => endsWith name f.suffix

/-- Reads the bytes of a file in a format. -/
def read (f : GraphFormat) (bs : Bytes) : Except Failure HostGraph :=
  match f with
  | graphML => GraphML.read false bs
  | packedGraphML =>
    let unpacked := Gzip.unpack bs
    GraphML.read unpacked.broken unpacked.bytes
  | edgeList => Csv.readEdgeList bs

/-- The failure of a file in a format that gives no bytes. -/
def readNothing (f : GraphFormat) : Except Failure HostGraph :=
  match f with
  | graphML | packedGraphML => GraphML.read true []
  | edgeList => .error Csv.tableFailure

end GraphFormat

/-- The failure of an operation on a disk. -/
def DiskFault.toFailure (fault : DiskFault) : Failure :=
  .backendIo fault.message "io"

/-- Does the name end like that of a graph file? -/
def hasGraphSuffix (name : String) : Bool :=
  (GraphFormat.ofName? name).isSome

/-- The failure of a name that says no format. -/
def unsupportedGraphFile (name : String) : Failure :=
  (Failure.backendIo ("Unsupported graph file: " ++ name) "graph:formats").withHint
    "Supported suffixes: .graphml, .graphml.gz, .csv"

/-- Reads bytes as the graph that the ending of a name says. -/
def decodeGraph (name : String) (bs : Bytes) : Except Failure HostGraph :=
  match GraphFormat.ofName? name with
  | some format => format.read bs
  | none => .error (unsupportedGraphFile name)

/-- Reads the graph in a file. -/
def Disk.readGraph (d : Disk) (path : String) : Except Failure HostGraph :=
  match d.lookup path with
  | .error fault =>
    .error ((Failure.backendIo ("Failed to open " ++ path ++ ": " ++ fault.message)
      "graph:formats").withContext "path" path)
  | .ok (.file content) => decodeGraph path content
  -- a directory can be opened, and only reading it fails
  | .ok .directory =>
    match GraphFormat.ofName? path with
    | some format => format.readNothing
    | none => .error (unsupportedGraphFile path)

end MotifQuery
