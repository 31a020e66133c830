import MotifQuery.Config.Basic
import MotifQuery.Disk.Basic
import MotifQuery.Disk.Name
import MotifQuery.Yaml.Value

/-!
# `MotifQuery.Config.File`: configurations in files

A configuration is a JSON document, or a YAML document where the extension of the file says
so. Every configuration that is read has passed the checks of `ServerConfig.validate`.
-/

set_option autoImplicit false

namespace MotifQuery.ServerConfig

/-- Reads a configuration in YAML. -/
def ofYamlText (raw : String) : Except Failure ServerConfig :=
  match (Yaml.Node.parse? raw.toList).bind (ofSource? Yaml.source) with
  | some c => c.validated
  | none =>
    .error (.config "config_parse_failed" "Invalid YAML config: not of the expected form"
      "config")

/-- Does the path say that the file is in YAML? -/
def isYamlPath (path : String) : Bool :=
  match extension? path with
  | some ext =>
    Text.sameLetters ext.toList "yaml".toList || Text.sameLetters ext.toList "yml".toList
  | none => false

/-- Reads the configuration in a file. -/
def load (d : Disk) (path : String) : Except Failure ServerConfig :=
  match d.readText path with
  | .error fault =>
    .error ((Failure.config "config_read_failed"
      ("Failed to read config " ++ path ++ ": " ++ fault.message) "config").withContext
      "path" path)
  | .ok raw => if isYamlPath path then ofYamlText raw else ofJsonText raw

end MotifQuery.ServerConfig
