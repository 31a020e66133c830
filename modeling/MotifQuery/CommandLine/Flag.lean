import MotifQuery.Number.Integer
import MotifQuery.Query.Compiled
import MotifQuery.Text.Blank

/-!
# `MotifQuery.CommandLine.Flag`: the flags of commands

A flag has a long name and perhaps a letter; it is a switch, or it takes a value of a
certain kind. Flags that stand with every command say how the output is written, ask for
more of it, and name the configuration.
-/

set_option autoImplicit false

namespace MotifQuery.CommandLine

/-- The formats of output. -/
inductive OutputFormat where
  | table
  | json
  | yaml
deriving DecidableEq

namespace OutputFormat

/-- The name of a format. -/
def name : OutputFormat → String
  | table => "table"
  | json => "json"
  | yaml => "yaml"

/-- The format with a name. -/
def ofName? (s : String) : Option OutputFormat :=
  [table, json, yaml].find? fun f => f.name == s

/-- The format that a word may mean: letter case does not count, and the short name of YAML
is known; any other word means tables. -/
def guess (s : String) : OutputFormat :=
  let lower := s.toList.map Text.lowerAscii
  if lower = "json".toList then json
  else if lower = "yaml".toList ∨ lower = "yml".toList then yaml
  else table

end OutputFormat

/-- What a flag takes. -/
inductive ValueKind where
  /-- Nothing: the flag is a switch. -/
  | nothing
  | text
  /-- A path, which is not empty. -/
  | path
  | port
  | format
  | language
deriving DecidableEq

/-- A port number. -/
def readPort? (value : String) : Option Nat :=
  match Number.readInt64? value.toList with
  | some n => if 0 ≤ n ∧ n ≤ 65535 then some n.toNat else none
  | none => none

/-- Is the text a value of the kind? -/
def ValueKind.accepts (value : String) : ValueKind → Bool
  | nothing => false
  | text => true
  | path => !value.isEmpty
  | port => (readPort? value).isSome
  | format => (OutputFormat.ofName? value).isSome
  | language => (QueryLanguage.ofName? value).isSome

/-- A flag. -/
inductive Flag where
  | format
  | verbose
  | config
  | help
  | version
  | bind
  | port
  | query
  | queryFile
  | queryType
  | aggregation
  | exportFormat
  | output
  | name
deriving DecidableEq

namespace Flag

/-- The long name of a flag. -/
def long : Flag → String
  | format => "format"
  | verbose => "verbose"
  | config => "config"
  | help => "help"
  | version => "version"
  | bind => "bind"
  | port => "port"
  | query => "query"
  | queryFile => "query-file"
  | queryType => "query-type"
  | aggregation => "aggregation"
  | exportFormat => "export-format"
  | output => "output"
  | name => "name"

/-- The letter of a flag. -/
def letter? : Flag → Option Char
  | format => some 'f'
  | verbose => some 'v'
  | config => some 'c'
  | help => some 'h'
  | version => some 'V'
  | query => some 'q'
  | queryType => some 't'
  | aggregation => some 'a'
  | output => some 'o'
  | bind | port | queryFile | exportFormat | name => none

/-- What a flag takes. -/
def takes : Flag → ValueKind
  | verbose | help | version => .nothing
  | format => .format
  | config | queryFile | output => .path
  | port => .port
  | queryType => .language
  | bind | query | aggregation | exportFormat | name => .text

/-- What a flag is for. -/
def about : Flag → String
  | format => "Format of the output: table, json or yaml"
  | verbose => "More output"
  | config => "Configuration file (JSON, or YAML by extension)"
  | help => "Print help"
  | version => "Print version"
  | bind => "Address to listen on"
  | port => "Port to listen on"
  | query => "Text of the query"
  | queryFile => "File with the query"
  | queryType => "Language of the query: dotmotif or cypher"
  | aggregation => "Aggregation directive"
  | exportFormat => "Format of the graph"
  | output => "File for the graph"
  | name => "Display name (the file name by default)"

/-- The flags that stand with every command. -/
def everywhere : List Flag :=
  [format, verbose, config, help, version]

end Flag

end MotifQuery.CommandLine
