import MotifQuery.Dict
import MotifQuery.Text.Split
import MotifQuery.Text.Utf8

/-!
# `MotifQuery.Disk.Basic`: files and directories

A disk is a value: every file and every directory under the text of its path. Paths that
do not start at the root start in the working directory. A path is walked component by
component, so that a missing directory on the way, a file on the way, and what stands at
the end are told apart; each operation gives the fault that the walk or the end forces, or
the disk after it.
-/

set_option autoImplicit false

namespace MotifQuery

open Text

/-- Why an operation on a disk fails. -/
inductive DiskFault where
  | notFound
  | alreadyExists
  | notDirectory
  | isDirectory
  | nameTooLong
  | nullCharacter
  | notUtf8
deriving DecidableEq, Repr

/-- The message of a fault. -/
def DiskFault.message : DiskFault → String
  | notFound => "No such file or directory (os error 2)"
  | alreadyExists => "File exists (os error 17)"
  | notDirectory => "Not a directory (os error 20)"
  | isDirectory => "Is a directory (os error 21)"
  | nameTooLong => "File name too long (os error 36)"
  | nullCharacter => "file name contained an unexpected NUL byte"
  | notUtf8 => "stream did not contain valid UTF-8"

/-- What stands at a path. -/
inductive DiskNode where
  | file (content : Bytes)
  | directory
deriving DecidableEq

/-- Files and directories by path. The root and the working directory are always there. -/
structure Disk where
  nodes : Dict DiskNode := ∅

/-- A directory on a disk, by its start and the components from there. -/
structure DiskPlace where
  absolute : Bool
  components : List String
deriving DecidableEq

namespace DiskPlace

/-- The text under which the disk keeps a place. -/
def key (p : DiskPlace) : String :=
  (if p.absolute then "/" else "") ++ String.intercalate "/" p.components

/-- The place of a name in a directory. -/
def child (p : DiskPlace) (name : String) : DiskPlace :=
  { p with components := p.components ++ [name] }

/-- The directory around a place. -/
def parent (p : DiskPlace) : DiskPlace :=
  { p with components := p.components.dropLast }

end DiskPlace

namespace Disk

/-- The disk without files. -/
def empty : Disk := {}

/-- What stands at a place. -/
def node? (d : Disk) (p : DiskPlace) : Option DiskNode :=
  if p.components.isEmpty then some .directory else d.nodes.get? p.key

/-- Goes from a directory into the component `name`. -/
def enter (d : Disk) (here : DiskPlace) (name : String) : Except DiskFault DiskPlace :=
  if name = "" ∨ name = "." then .ok here
  else if name = ".." then .ok here.parent
  else if 255 < (bytesOf name).length then .error .nameTooLong
  else
    match d.node? (here.child name) with
    | some .directory => .ok (here.child name)
    | some (.file _) => .error .notDirectory
    | none => .error .notFound

/-- Where a walk ends. -/
structure Target where
  place : DiskPlace
  /-- The path asks for a directory. -/
  asDirectory : Bool

/-- Walks components from a directory; all but the last must be directories. -/
def walk (d : Disk) (here : DiskPlace) : List String → Except DiskFault Target
  | [] => .ok ⟨here, true⟩
  | [name] =>
    if name = "" ∨ name = "." then .ok ⟨here, true⟩
    else if name = ".." then .ok ⟨here.parent, true⟩
    else if 255 < (bytesOf name).length then .error .nameTooLong
    else .ok ⟨here.child name, false⟩
  -- a stroke at the end asks for a directory
  | [name, ""] =>
    if name = "" ∨ name = "." then .ok ⟨here, true⟩
    else if name = ".." then .ok ⟨here.parent, true⟩
    else if 255 < (bytesOf name).length then .error .nameTooLong
    else .ok ⟨here.child name, true⟩
  | name :: rest =>
    match d.enter here name with
    | .ok there => d.walk there rest
    | .error fault => .error fault

/-- Where a path leads. -/
def target (d : Disk) (path : String) : Except DiskFault Target :=
  let cs := path.toList
  if cs.contains '\x00' then .error .nullCharacter
  else if cs.isEmpty then .error .notFound
  else if 4095 < (bytesOf path).length then .error .nameTooLong
  else d.walk ⟨cs.head? == some '/', []⟩ ((pieces '/' cs).map String.ofList)

/-- What stands at a path. -/
def lookup (d : Disk) (path : String) : Except DiskFault DiskNode := do
  let t ← d.target path
  match d.node? t.place with
  | none => throw .notFound
  | some .directory => pure .directory
  | some (.file content) => if t.asDirectory then throw .notDirectory else pure (.file content)

/-- Does something stand at a path? -/
def contains (d : Disk) (path : String) : Bool :=
  (d.lookup path).toOption.isSome

/-- Does a file stand at a path? -/
def isFile (d : Disk) (path : String) : Bool :=
  match d.lookup path with
  | .ok (.file _) => true
  | _ => false

/-- Does a directory stand at a path? -/
def isDirectory (d : Disk) (path : String) : Bool :=
  match d.lookup path with
  | .ok .directory => true
  | _ => false

/-- The bytes of a file. -/
def read (d : Disk) (path : String) : Except DiskFault Bytes := do
  match ← d.lookup path with
  | .file content => pure content
  | .directory => throw .isDirectory

/-- The text of a file. -/
def readText (d : Disk) (path : String) : Except DiskFault String := do
  let content ← d.read path
  match stringOf? content with
  | some text => pure text
  | none => throw .notUtf8

/-- Puts a node at a place. -/
def put (d : Disk) (p : DiskPlace) (node : DiskNode) : Disk :=
  { nodes := d.nodes.insert p.key node }

/-- Writes a file, over a file that stands there. -/
def write (d : Disk) (path : String) (content : Bytes) : Except DiskFault Disk := do
  let t ← d.target path
  match d.node? t.place with
  | some .directory => throw .isDirectory
  | some (.file _) =>
    if t.asDirectory then throw .notDirectory else pure (d.put t.place (.file content))
  | none =>
    -- a name with a stroke after it is no name for a new file
    if t.asDirectory then throw .isDirectory else pure (d.put t.place (.file content))

/-- Makes a directory. -/
def makeDirectory (d : Disk) (path : String) : Except DiskFault Disk := do
  let t ← d.target path
  match d.node? t.place with
  | some _ => throw .alreadyExists
  | none => pure (d.put t.place .directory)

/-- A path and the paths that open it, from the whole to the shortest. -/
def openings (path : String) : List String :=
  let parts := (pieces '/' path.toList).map String.ofList
  let opened := (List.range parts.length).map fun n =>
    String.intercalate "/" (parts.take (n + 1))
  (opened.filter (· != "")).reverse

/-- Makes a directory where there is none. -/
def ensureDirectory (d : Disk) (path : String) : Except DiskFault Disk :=
  match d.makeDirectory path with
  | .ok d => .ok d
  -- a directory that is there already is no fault
  | .error fault => if d.isDirectory path then .ok d else .error fault

/-- Makes the first of the paths a directory; where the one around it is missing, that is
made first from the others. -/
def makeFrom (d : Disk) : List String → Except DiskFault Disk
  | [] => .ok d
  | path :: around =>
    match d.makeDirectory path with
    | .error .notFound =>
      match d.makeFrom around with
      | .ok d => d.ensureDirectory path
      | .error fault => .error fault
    | _ => d.ensureDirectory path

/-- Makes a directory and all that are missing on the way to it. -/
def makeDirectories (d : Disk) (path : String) : Except DiskFault Disk :=
  d.makeFrom (openings path)

/-- Removes a file. -/
def remove (d : Disk) (path : String) : Except DiskFault Disk := do
  let t ← d.target path
  match d.node? t.place with
  | none => throw .notFound
  | some .directory => throw .isDirectory
  | some (.file _) =>
    if t.asDirectory then throw .notDirectory else pure { nodes := d.nodes.erase t.place.key }

/-- Removes a directory and all in it. -/
def removeTree (d : Disk) (path : String) : Except DiskFault Disk := do
  let t ← d.target path
  match d.node? t.place with
  | none => throw .notFound
  | some (.file _) => throw .notDirectory
  | some .directory =>
    let key := t.place.key
    pure { nodes := d.nodes.filter fun k _ => k != key && !startsWith k (key ++ "/") }

/-- The name of an entry under the directory with the key `dir`, when it stands directly
there. -/
def nameIn? (dir key : String) : Option String :=
  let start := if dir = "" ∨ dir = "/" then dir else dir ++ "/"
  match after? start key with
  | some name => if name.contains '/' ∨ name = "" then none else some name
  | none => none

/-- The names in a directory, in order. -/
def names (d : Disk) (path : String) : Except DiskFault (List String) := do
  let t ← d.target path
  match d.node? t.place with
  | none => throw .notFound
  | some (.file _) => throw .notDirectory
  | some .directory => pure (d.nodes.keys.filterMap (nameIn? t.place.key))

/-- The path of a name in a directory. -/
def join (dir name : String) : String :=
  if startsWith name "/" then name
  else if dir = "" ∨ endsWith dir "/" then dir ++ name
  else dir ++ "/" ++ name

end Disk

end MotifQuery
