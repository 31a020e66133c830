import MotifQuery.Config.Basic
import MotifQuery.Disk.GraphFile
import MotifQuery.Disk.Name
import MotifQuery.Host.Uri
import MotifQuery.Json.Printer
import MotifQuery.Time.Calendar

/-!
# `MotifQuery.Host.Uploads`: uploaded graphs

An upload directory holds the files of uploads and a table of their records, written anew
at every change. `UploadHost` is the directory as one process sees it: the records are
read when it is opened and kept in memory afterwards. An upload expires at a fixed
instant; from then on it is neither served nor listed, and its file goes with the next
purge. Every operation gives what becomes of the host and of the disk, also when it fails
half-way.
-/

set_option autoImplicit false

namespace MotifQuery

open Text

/-- The record of an upload. -/
structure UploadRecord where
  id : String
  path : String
  givenName : String
  size : Nat
  createdAt : Instant
  expiresAt : Instant
deriving DecidableEq

namespace UploadRecord

/-- Is the upload expired at an instant? -/
def isExpiredAt (u : UploadRecord) (now : Instant) : Bool :=
  u.expiresAt ≤ now

/-- The URI of an upload. -/
def uri (u : UploadRecord) : String :=
  uploadScheme ++ u.id

/-- A record as an object. -/
def toJson (u : UploadRecord) : Json :=
  .ofFields [
    ("temp_id", .str u.id),
    ("filepath", .str u.path),
    ("original_filename", .str u.givenName),
    ("file_size", .nat u.size),
    ("created_at", .str u.createdAt.text),
    ("expires_at", .str u.expiresAt.text)]

/-- Does the first upload come before the second in a listing? -/
def listedBefore (u v : UploadRecord) : Bool :=
  u.createdAt < v.createdAt || (u.createdAt == v.createdAt && u.id ≤ v.id)

/-- Reads an instant. -/
def instant? (node : Json.Document) : Option Instant :=
  (Json.Document.source.text? node).bind fun text => Instant.read? text.toList

/-- Reads a record. -/
def read? (node : Json.Document) : Option UploadRecord :=
  let s := Json.Document.source
  match s.fields? ["temp_id", "filepath", "original_filename", "file_size", "created_at",
      "expires_at"] node with
  | some [id, path, givenName, size, createdAt, expiresAt] => do
    let id ← Source.require s.text? id
    let path ← Source.require s.text? path
    let givenName ← Source.require s.text? givenName
    let size ← Source.require s.natural? size
    let createdAt ← Source.require instant? createdAt
    let expiresAt ← Source.require instant? expiresAt
    pure { id, path, givenName, size, createdAt, expiresAt }
  | _ => none

end UploadRecord

/-- An upload directory as one process sees it. -/
structure UploadHost where
  directory : String
  /-- How many days an upload lives. -/
  days : Nat
  records : Dict UploadRecord := ∅
deriving DecidableEq

/-- Why an upload is not stored. -/
inductive UploadFault where
  | refused (f : Failure)
  /-- The calendar does not reach the instant at which the upload would expire. -/
  | beyondCalendar

/-- What an operation gives, and the host and the disk after it. -/
structure UploadStep (α : Type) where
  result : α
  host : UploadHost
  disk : Disk

namespace UploadHost

/-- The part of the program that holds uploads. -/
def origin : String := "provider:temporary"

/-- The name of the upload directory. -/
def directoryName : String := "motifstudio_uploads"

/-- The path of the table of records. -/
def tablePath (directory : String) : String :=
  Disk.join directory "metadata.json"

/-- The path of the file that guards the table. -/
def lockPath (directory : String) : String :=
  Disk.join directory ".metadata.lock"

/-- Reads a table of records. -/
def readTable? (text : String) : Option (Dict UploadRecord) :=
  (Json.Document.parse? text.toList).bind (Json.Document.source.dict? UploadRecord.read?)

/-- The records in a directory whose files are there; a table that cannot be read counts as
empty. -/
def loadRecords (d : Disk) (directory : String) : Dict UploadRecord :=
  match (d.readText (tablePath directory)).toOption.bind readTable? with
  -- a record without its file is forgotten
  | some records => records.filter fun _ u => d.contains u.path
  | none => ∅

/-- Makes the file that guards the table, where it is missing. -/
def guardTable (d : Disk) (directory : String) : Except DiskFault Disk :=
  match d.lookup (lockPath directory) with
  -- a guard that is there is left as it is
  | .ok (.file _) => .ok d
  | _ => d.write (lockPath directory) []

/-- Writes the table of records: the guard first, then the table in one piece. -/
def saveRecords (h : UploadHost) (d : Disk) : Except Failure Unit × Disk :=
  match guardTable d h.directory with
  | .error fault => (.error fault.toFailure, d)
  | .ok d =>
    let table := (Json.object (h.records.map UploadRecord.toJson)).indented
    match d.write (tablePath h.directory) (bytesOf table) with
    | .ok d => (.ok (), d)
    | .error fault =>
      (.error (.backendIo ("failed to persist temporary file: " ++ fault.message) origin), d)

/-- Removes a file; one that cannot be removed stays. -/
def removeQuietly (d : Disk) (path : String) : Disk :=
  (d.remove path).toOption.getD d

/-- Removes the uploads that are expired, and tells how many records that takes. -/
def purge (h : UploadHost) (now : Instant) (d : Disk) : UploadStep (Except Failure Nat) :=
  let expired := (h.records.values.filter fun u => u.isExpiredAt now).map (·.id)
  let (h, d) := expired.foldl
    (fun (h, d) id =>
      match h.records.get? id with
      | some u => ({ h with records := h.records.erase id }, removeQuietly d u.path)
      | none => (h, d))
    (h, d)
  if expired.isEmpty then ⟨.ok 0, h, d⟩
  else
    let (saved, d) := h.saveRecords d
    ⟨saved.map fun _ => expired.length, h, d⟩

/-- Opens the upload directory of the options; `systemTemp` is where it stands when they do
not say. -/
def ofOptions (options : TemporaryOptions) (systemTemp : String) (now : Instant) (d : Disk) :
    Except Failure UploadHost × Disk :=
  let directory := Disk.join (options.tempDir.getD systemTemp) directoryName
  match d.makeDirectories directory with
  | .error fault =>
    (.error (.backendIo ("Cannot create upload directory " ++ directory ++ ": "
      ++ fault.message) origin), d)
  | .ok d =>
    let h : UploadHost :=
      { directory, days := options.expirationDays, records := loadRecords d directory }
    let step := h.purge now d
    (step.result.map fun _ => step.host, step.disk)

/-- The record of an upload that lives. -/
def live? (h : UploadHost) (now : Instant) (id : String) : Option UploadRecord :=
  (h.records.get? id).filter fun u => !u.isExpiredAt now

/-- Is the URI that of a living upload with a graph? -/
def accepts (h : UploadHost) (now : Instant) (uri : String) : Bool :=
  ((after? uploadScheme uri).bind (h.live? now)).any fun u => hasGraphSuffix u.path

/-- The living upload of a URI. -/
def resolve (h : UploadHost) (now : Instant) (uri : String) : Except Failure UploadRecord := do
  let id ← afterScheme uploadScheme origin uri
  match h.live? now id with
  | some u => pure u
  | none =>
    throw ((Failure.backendIo ("Temporary file not found or expired for ID " ++ id)
      origin).withContext "temp_id" id)

/-- Loads the graph of an upload. -/
def load (h : UploadHost) (now : Instant) (d : Disk) (uri : String) :
    Except Failure HostGraph := do
  let u ← h.resolve now uri
  d.readGraph u.path

/-- The ending for the file of an upload with a name; a name without an extension counts as
GraphML. -/
def storedSuffix? (name : String) : Option String :=
  let lower := String.ofList (name.toList.map lowerAscii)
  if endsWith lower GraphFormat.packedGraphML.suffix then
    some GraphFormat.packedGraphML.suffix
  else
    match extension? lower with
    | none => some GraphFormat.graphML.suffix
    | some ext => if hasGraphSuffix ("." ++ ext) then some ("." ++ ext) else none

/-- The failure of an upload that says no format. -/
def unsupportedFormat (name : String) : Failure :=
  (Failure.user "unsupported_upload_format" ("Unsupported graph file: " ++ name)
    origin).withHint "Upload a .graphml, .graphml.gz, or .csv file"

/-- Keeps the record of a file that is written already. -/
def keep (h : UploadHost) (d : Disk) (u : UploadRecord) :
    UploadStep (Except UploadFault UploadRecord) :=
  -- the record is kept in memory even where the table cannot be written
  let h := { h with records := h.records.insert u.id u }
  let (saved, d) := h.saveRecords d
  match saved with
  | .ok () => ⟨.ok u, h, d⟩
  | .error f => ⟨.error (.refused f), h, d⟩

/-- Stores an upload under a fresh id. -/
def store (h : UploadHost) (now : Instant) (freshId : String) (d : Disk) (content : Bytes)
    (name : String) : UploadStep (Except UploadFault UploadRecord) :=
  if content.isEmpty then
    ⟨.error (.refused (.user "empty_upload" "Empty file uploaded" origin)), h, d⟩
  else
    match storedSuffix? name with
    | none => ⟨.error (.refused (unsupportedFormat name)), h, d⟩
    | some suffix =>
      let path := Disk.join h.directory (freshId ++ suffix)
      match d.write path content with
      | .error fault => ⟨.error (.refused fault.toFailure), h, d⟩
      | .ok d =>
        match now.addDays? h.days with
        -- the file is written already and stays
        | none => ⟨.error .beyondCalendar, h, d⟩
        | some expiresAt =>
          h.keep d
            { id := freshId, path, givenName := name, size := content.length,
              createdAt := now, expiresAt }

/-- Removes the upload with an id, then the expired ones; tells whether it was there. -/
def cleanup (h : UploadHost) (now : Instant) (d : Disk) (id : String) :
    UploadStep (Except Failure Bool) :=
  match h.records.get? id with
  | none =>
    let step := h.purge now d
    { step with result := step.result.map fun _ => false }
  | some u =>
    let h := { h with records := h.records.erase id }
    -- the file goes first, so a table that cannot be written has a record too many
    let (saved, d) := h.saveRecords (removeQuietly d u.path)
    match saved with
    | .error f => ⟨.error f, h, d⟩
    | .ok () =>
      let step := h.purge now d
      { step with result := step.result.map fun _ => true }

/-- The living uploads, oldest first. -/
def list (h : UploadHost) (now : Instant) : List UploadRecord :=
  (h.records.values.filter fun u => !u.isExpiredAt now).mergeSort UploadRecord.listedBefore

/-- The living upload with an id whose file is there. -/
def info? (h : UploadHost) (now : Instant) (d : Disk) (id : String) : Option UploadRecord :=
  (h.live? now id).filter fun u => d.contains u.path

end UploadHost

end MotifQuery
