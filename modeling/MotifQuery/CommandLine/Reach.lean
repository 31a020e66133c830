import MotifQuery.CommandLine.Run

/-!
# `MotifQuery.CommandLine.Reach`: which paths a command touches

A command works on a disk that is a value, so whoever runs it gathers the paths that it
may touch: the configuration and the paths among its words, the files and directories of
the configured hosts, and the directories of caches and uploads. What is known of the disk
helps to know more of it: the configuration leads to directories, and the table of uploads
in one of them to files.
-/

set_option autoImplicit false

namespace MotifQuery.CommandLine

/-- The paths among the words of a command. -/
def Command.paths : Command → List String
  | compile (.file path) _ | countMatches _ (.file path) _ | search _ (.file path) _ _ => [path]
  | download _ _ (some path) => [path]
  | uploadAdd path _ => [path]
  | _ => []

/-- The path of a host that is a file or a directory. -/
def hostPath? (h : HostListing) : Option String :=
  (Text.after? fileScheme h.uri).or (Text.after? propertyScheme h.uri)

/-- The paths of an upload directory, as far as the table of uploads is known. -/
def uploadPaths (d : Disk) (directory : String) : List String :=
  let table := (d.readText (UploadHost.tablePath directory)).toOption.bind UploadHost.readTable?
  [directory, UploadHost.tablePath directory, UploadHost.lockPath directory]
    ++ ((table.getD ∅).values.map UploadRecord.path)

/-- The paths of a provider. -/
def providerPaths (s : Surroundings) (d : Disk) (p : ProviderConfig) : List String :=
  match p.kind with
  | .ok (.s3 options) => if options.cache then [options.cacheDir.getD s.cacheDir] else []
  | .ok (.temporary options) =>
    uploadPaths d (Disk.join (options.tempDir.getD s.tempDir) UploadHost.directoryName)
  | _ => []

/-- The paths that an invocation may touch, as far as the disk is known. -/
def Invocation.paths (s : Surroundings) (d : Disk) (i : Invocation) : List String :=
  let configured := match ServerConfig.load d i.configPath with
    | .ok c => c.hosts.filterMap hostPath? ++ c.providers.flatMap (providerPaths s d)
    | .error _ => []
  i.configPath :: i.command.paths ++ configured

end MotifQuery.CommandLine
