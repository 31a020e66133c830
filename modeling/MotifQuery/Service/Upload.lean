import MotifQuery.Service.Basic

/-!
# `MotifQuery.Service.Upload`: the uploads of a service

Uploads go to the first provider that holds them. A stored graph becomes an unlisted host
whose id is that of the upload; it is found by exactly that id until it is cleaned up or
expires.
-/

set_option autoImplicit false

namespace MotifQuery

/-- What the sender of an upload gets back. -/
structure UploadReceipt where
  id : String
  givenName : String
  size : Nat
deriving DecidableEq

/-- A receipt as an object. -/
def UploadReceipt.toJson (r : UploadReceipt) : Json :=
  .record [
    ("temp_id", .str r.id), ("original_filename", .str r.givenName),
    ("file_size", .nat r.size), ("success", .bool true), ("error", .null)]

/-- An upload as it is listed: its record and the name that it was given. -/
structure UploadListing where
  record : UploadRecord
  name : String
deriving DecidableEq

/-- A listed upload as an object. -/
def UploadListing.toJson (u : UploadListing) : Json :=
  .record [
    ("temp_id", .str u.record.id), ("name", .str u.name),
    ("original_filename", .str u.record.givenName), ("file_size", .nat u.record.size),
    ("created_at", .str u.record.createdAt.text), ("expires_at", .str u.record.expiresAt.text)]

namespace Service

variable {α : Type}

/-- The first provider that holds uploads, with its id. -/
def uploadHost? (v : Service) : Option (String × UploadHost) :=
  v.router.entries.findSome? fun (entry : String × Provider) =>
    match entry.2 with
    | .uploads h => some (entry.1, h)
    | _ => none

/-- The failure where no provider holds uploads. -/
def noUploadProvider : Failure :=
  { category := .provider, code := "upload_provider_not_found",
    message := "No configured provider accepts uploads", origin,
    hint := some "Add a provider of type `temporary` to the configuration" }

/-- The failure of an id that no upload has. -/
def uploadNotFound (id : String) : Failure :=
  { category := .host, code := "upload_not_found",
    message := "No uploaded graph with ID " ++ id, origin, recoverable := true }

/-- The failure of an upload without content. -/
def emptyUpload : Failure :=
  .user "empty_upload" "Empty file uploaded" origin

/-- The service after a step of one of its upload directories. -/
def afterStep (v : Service) (id : String) (step : UploadStep α) : Service :=
  { v with router := v.router.add id (.uploads step.host), disk := step.disk }

/-- Stores a graph and registers it; without a name it goes by the name of its file. -/
def upload (s : Surroundings) (v : Service) (content : Bytes) (fileName : String)
    (name : Option String) : Except UploadFault UploadReceipt × Service :=
  if content.isEmpty then (.error (.refused emptyUpload), v)
  else
    match v.uploadHost? with
    | none => (.error (.refused noUploadProvider), v)
    | some (providerId, h) =>
      let step := h.store s.now s.freshId v.disk content fileName
      let v := v.afterStep providerId step
      match step.result with
      | .error fault => (.error fault, v)
      | .ok u =>
        let shown := (name.filter fun n => !n.isEmpty).getD fileName
        (.ok { id := u.id, givenName := u.givenName, size := u.size },
          { v with registry := v.registry.add (u.listing shown providerId) })

/-- An upload with the name of its host. -/
def listUpload (v : Service) (u : UploadRecord) : UploadListing :=
  { record := u, name := ((v.registry.unlisted? u.id).map (·.name)).getD u.givenName }

/-- The living uploads, oldest first. -/
def uploads (s : Surroundings) (v : Service) : Except Failure (List UploadListing) :=
  match v.uploadHost? with
  | none => .error noUploadProvider
  | some (_, h) => .ok ((h.list s.now).map v.listUpload)

/-- The living upload with an id. -/
def uploadInfo (s : Surroundings) (v : Service) (id : String) : Except Failure UploadListing :=
  match v.uploadHost? with
  | none => .error noUploadProvider
  | some (_, h) =>
    match h.info? s.now v.disk id with
    | some u => .ok (v.listUpload u)
    | none => .error (uploadNotFound id)

/-- Removes an upload and its host. -/
def cleanup (s : Surroundings) (v : Service) (id : String) : Except Failure Unit × Service :=
  match v.uploadHost? with
  | none => (.error noUploadProvider, v)
  | some (providerId, h) =>
    let listed := (v.registry.unlisted? id).isSome
    -- the host goes even where its upload cannot be removed
    let v := { v with registry := v.registry.remove id }
    let step := h.cleanup s.now v.disk id
    let v := v.afterStep providerId step
    match step.result with
    | .error f => (.error f, v)
    | .ok stored => (if listed || stored then .ok () else .error (uploadNotFound id), v)

/-- What the sender of a clean-up gets back. -/
def cleanupReceipt (id : String) : Json :=
  .record [("temp_id", .str id), ("success", .bool true), ("error", .null)]

end Service

end MotifQuery
