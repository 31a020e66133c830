import MotifQuery.CommandLine.Reach
import MotifQuery.Http.Wire
import Std.Time.DateTime.Timestamp

/-!
# `MotifQuery.Main`: the program

The program gathers what it finds around it, copies the paths that its command may touch
to a disk, runs the command, and writes back what has changed. Served requests arrive on
standard input and are answered on standard output, one after the other.
-/

set_option autoImplicit false

namespace MotifQuery

/-! ### Surroundings -/

/-- A worker takes a step in half a microsecond. -/
def paced (limits : ResourceLimits) (endsWithin : Nat → Bool) : WorkerFate :=
  match limits.maxDuration with
  | some span => if endsWithin (span / 500) then .reports else .overruns span
  | none => .reports

/-- The id made from a number of 122 bits. -/
def idOfNumber (n : Nat) : String :=
  let digits := Number.hexDigits 12 (n % Nat.pow 2 48)
  let clock := Number.hexDigits 4 (0x8000 + n / Nat.pow 2 48 % Nat.pow 2 14)
  let version := '4' :: Number.hexDigits 3 (n / Nat.pow 2 62 % Nat.pow 2 12)
  let middle := Number.hexDigits 4 (n / Nat.pow 2 74 % Nat.pow 2 16)
  let start := Number.hexDigits 8 (n / Nat.pow 2 90 % Nat.pow 2 32)
  String.ofList (['-'].intercalate [start, middle, version, clock, digits])

/-- The memory of the machine; 0 where it is not known. -/
def totalRam : IO Nat := do
  let text ← (IO.FS.readFile "/proc/meminfo").toBaseIO
  let line? := (Text.lines ((text.toOption.getD "").toList)).findSome? fun line =>
    Text.splitOnce? "MemTotal:".toList line
  match line? with
  | some (_, rest) =>
    let digits := (Text.trim rest).takeWhile Char.isDigit
    pure ((Number.readNat? digits).getD 0 * 1024)
  | none => pure 0

/-- The directory of the user for what was fetched before. -/
def cacheDirectory : IO String := do
  match ← IO.getEnv "XDG_CACHE_HOME", ← IO.getEnv "HOME" with
  | some dir, _ => pure (Disk.join dir "motifstudio/s3")
  | none, some home => pure (Disk.join home ".cache/motifstudio/s3")
  | none, none => pure ".cache/motifstudio/s3"

/-- What the program finds around it; no object store can be reached. -/
def findSurroundings : IO Surroundings := do
  let now ← Std.Time.Timestamp.now
  let number ← IO.rand 0 (Nat.pow 2 122 - 1)
  let seed ← IO.rand 0 (Nat.pow 2 31)
  pure {
    now := now.toNanosecondsSinceUnixEpoch.val
    freshId := idOfNumber number, seed, fate := paced
    stores := fun endpoint bucket key =>
      .error (fetchFailure endpoint bucket key "no connection")
    tempDir := (← IO.getEnv "TMPDIR").getD "/tmp"
    cacheDir := ← cacheDirectory, totalRam := ← totalRam }

/-! ### Disks -/

/-- Copies a file to a disk, if it can be read. -/
def copyFile (d : Disk) (path : String) : IO Disk := do
  match ← (IO.FS.readBinFile path).toBaseIO with
  | .ok content => pure ((d.write path content.toList).toOption.getD d)
  | .error _ => pure d

/-- Copies what stands at a path to a disk; of a directory the files in it come along if
`deep` says so. -/
def copyNode (d : Disk) (path : String) (deep : Bool) : IO Disk := do
  match ← (IO.FS.realPath path).toBaseIO with
  | .error _ => pure d
  | .ok place =>
    if ← place.isDir then
      let d := (d.makeDirectory path).toOption.getD d
      if deep then
        (← place.readDir).foldlM (fun d entry => do
          if ← entry.path.isDir then
            pure ((d.makeDirectory (Disk.join path entry.fileName)).toOption.getD d)
          else copyFile d (Disk.join path entry.fileName)) d
      else pure d
    else copyFile d path

/-- Copies a path and the directories on the way to it. -/
def copyPath (d : Disk) (path : String) : IO Disk := do
  let way := (Disk.openings path).reverse
  let d ← way.dropLast.foldlM (fun d around => copyNode d around false) d
  way.getLast?.elim (pure d) fun whole => copyNode d whole true

/-- The part of the disk that an invocation may touch. -/
def copyDisk (s : Surroundings) (i : CommandLine.Invocation) : IO Disk := do
  let config ← (i.paths s .empty).foldlM copyPath .empty
  let known ← (i.paths s config).foldlM copyPath config
  (i.paths s known).foldlM copyPath known

/-- Makes the files what they are on a disk, where that differs from what they were. -/
def writeBack (before after : Disk) : IO Unit := do
  for (key, node) in after.nodes.entries do
    if before.nodes.get? key != some node then
      match node with
      | .directory => IO.FS.createDirAll key
      | .file content => IO.FS.writeBinFile key (ByteArray.mk content.toArray)
  for (key, node) in before.nodes.entries do
    if !after.nodes.contains key then
      match node with
      | .file _ => IO.FS.removeFile key
      | .directory => IO.FS.removeDirAll key

/-! ### Serving -/

/-- Reads header lines up to the blank one, and the number of bytes that they announce. -/
partial def readHeader (input : IO.FS.Stream) (length : Nat) : IO Nat := do
  let line ← input.getLine
  if (Text.trim line.toList).isEmpty then pure length
  else readHeader input ((Http.RawRequest.readLength? line).getD length)

/-- Answers requests until there are no more. -/
partial def answerRequests (i : CommandLine.Invocation) (v : Service)
    (input output : IO.FS.Stream) : IO Unit := do
  let line ← input.getLine
  match Http.RawRequest.readStart? (Text.trimmed line) with
  | none => pure ()
  | some (method, url) =>
    let length ← readHeader input 0
    let body ← input.read length.toUSize
    let s ← findSurroundings
    let before ← copyDisk s i
    let request : Http.RawRequest := { method, url, body := body.toList }
    let (response, v) := Http.exchange s { v with disk := before } request
    writeBack before v.disk
    output.write (ByteArray.mk response.bytes.toArray)
    output.flush
    answerRequests i v input output

/-- Leaves behind what a command does. -/
def tell (f : CommandLine.Finish) : IO UInt32 := do
  IO.print f.stdout
  IO.eprint f.stderr
  pure f.exit.toUInt32

end MotifQuery

open MotifQuery in
/-- Runs the command line. -/
def main (words : List String) : IO UInt32 := do
  let s ← findSurroundings
  match CommandLine.Invocation.read (← IO.getEnv "MOTIFSTUDIO_CONFIG") words with
  | .error stop => tell (stop.finish (CommandLine.Invocation.guessFormat words))
  | .ok i =>
    let before ← copyDisk s i
    let (ending, after) := i.run s before
    writeBack before after
    match ending with
    | .finished f => tell f
    | .brokeDown =>
      tell { exit := 101, stderr := "the expiry of the upload is beyond the calendar\n" }
    | .serving _ _ _ warning v =>
      IO.eprint warning
      answerRequests i v (← IO.getStdin) (← IO.getStdout)
      pure 0
