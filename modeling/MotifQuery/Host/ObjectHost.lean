import MotifQuery.Checksum.Sha256
import MotifQuery.Config.Basic
import MotifQuery.Disk.GraphFile
import MotifQuery.Host.Uri

/-!
# `MotifQuery.Host.ObjectHost`: graphs in an object store

A bucket of an object store holds graph files. With a cache, an object is fetched once:
its bytes are kept in a file named by the digest of its URI, and later loads read that
file. A failed fetch leaves the cache as it was.
-/

set_option autoImplicit false

namespace MotifQuery

/-- Fetches an object by bucket and key. -/
abbrev ObjectStore := String → String → Except Failure Bytes

/-- A bucket, and the directory of its cache where there is one. -/
structure ObjectHost where
  bucket : String
  cacheDir : Option String
deriving DecidableEq

namespace ObjectHost

/-- The part of the program that serves objects. -/
def origin : String := "provider:s3"

/-- How the URIs of the bucket begin. -/
def opening (h : ObjectHost) : String :=
  objectScheme ++ h.bucket ++ "/"

/-- Does the bucket serve the URI? -/
def accepts (h : ObjectHost) (uri : String) : Bool :=
  Text.startsWith uri h.opening && hasGraphSuffix uri

/-- Makes the directory of the cache; `userCache` is where it stands when the options do
not say. -/
def ofOptions (options : S3Options) (userCache : String) (d : Disk) :
    Except Failure (ObjectHost × Disk) :=
  if options.cache then
    let dir := options.cacheDir.getD userCache
    match d.makeDirectories dir with
    | .ok d => .ok ({ bucket := options.bucket, cacheDir := some dir }, d)
    | .error fault => .error fault.toFailure
  else .ok ({ bucket := options.bucket, cacheDir := none }, d)

/-- The name of the file that keeps the object of a URI. -/
def cacheName (uri key : String) : String :=
  Checksum.sha256Text (Text.bytesOf uri)
    ++ ((GraphFormat.ofName? key).getD .graphML).suffix

/-- What a load gives: the graph or a failure, the disk after it, and whether the store was
asked. -/
structure Loading where
  graph : Except Failure HostGraph
  disk : Disk
  asked : Bool

/-- Fetches an object, keeps it at a path and reads it. -/
def fetchTo (h : ObjectHost) (store : ObjectStore) (d : Disk) (key path : String) : Loading :=
  match store h.bucket key with
  | .error f => ⟨.error f, d, true⟩
  | .ok content =>
    match d.write path content with
    | .error fault => ⟨.error fault.toFailure, d, true⟩
    | .ok d => ⟨d.readGraph path, d, true⟩

/-- Loads the object with a key. -/
def loadKey (h : ObjectHost) (store : ObjectStore) (d : Disk) (uri key : String) : Loading :=
  match h.cacheDir with
  | some dir =>
    let path := Disk.join dir (cacheName uri key)
    -- what stands in the cache is used whether or not it can be read
    if d.contains path then ⟨d.readGraph path, d, false⟩ else h.fetchTo store d key path
  | none =>
    match store h.bucket key with
    | .error f => ⟨.error f, d, true⟩
    | .ok content => ⟨((GraphFormat.ofName? key).getD .graphML).read content, d, true⟩

/-- Loads the graph of a URI. -/
def load (h : ObjectHost) (store : ObjectStore) (d : Disk) (uri : String) : Loading :=
  match Text.after? h.opening uri with
  | some key => h.loadKey store d uri key
  | none =>
    ⟨.error (.user "unsupported_uri" ("URI " ++ uri ++ " is not in bucket " ++ h.bucket)
      origin), d, false⟩

end ObjectHost

/-- The failure of a request for an object. -/
def fetchFailure (endpoint bucket key reason : String) : Failure :=
  let base := String.ofList (endpoint.toList.reverse.dropWhile (· == '/')).reverse
  ((Failure.backendIo ("Failed to fetch " ++ base ++ "/" ++ bucket ++ "/" ++ key ++ ": "
    ++ reason) ObjectHost.origin).withContext "bucket" bucket).withContext "key" key

end MotifQuery
