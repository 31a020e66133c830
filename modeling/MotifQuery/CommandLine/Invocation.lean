import MotifQuery.CommandLine.Command
import MotifQuery.Text.Split

/-!
# `MotifQuery.CommandLine.Invocation`: reading the command line

Words are read from left to right. A word that names a continuation of the path goes on to
it; two hyphens and a name, or one hyphen and letters, are flags; anything else is an
argument, as is everything after two hyphens alone. Help and version end the reading where
they stand, so they win over every fault after them.
-/

set_option autoImplicit false

namespace MotifQuery.CommandLine

/-- Why no command is run. -/
inductive Stop where
  /-- Help for a shape was asked for. -/
  | help (shape : CommandShape)
  | version
  /-- The words make no command. -/
  | misuse (shape : CommandShape) (fault : String)
deriving DecidableEq

/-- What has been read. -/
structure Reading where
  shape : CommandShape := .root
  /-- The flags since the last word of the path. -/
  seen : List Flag := []
  values : List (Flag × String) := []
  arguments : List String := []
  /-- Two hyphens alone were read. -/
  closed : Bool := false
deriving DecidableEq

namespace Reading

/-- The words are no command. -/
def misuse {α : Type} (r : Reading) (fault : String) : Except Stop α :=
  .error (.misuse r.shape fault)

/-- The flag with a long name. -/
def longFlag? (r : Reading) (name : List Char) : Option Flag :=
  (Flag.everywhere ++ r.shape.flags).find? fun f => f.long.toList == name

/-- The flag with a letter. -/
def letterFlag? (r : Reading) (c : Char) : Option Flag :=
  (Flag.everywhere ++ r.shape.flags).find? fun f => f.letter? == some c

/-- Takes a switch into account. -/
def switch (r : Reading) (flag : Flag) : Except Stop Reading :=
  match flag with
  | .help => .error (.help r.shape)
  | .version => .error .version
  | flag =>
    if r.seen.contains flag then r.misuse ("--" ++ flag.long ++ " is given twice")
    else .ok { r with seen := flag :: r.seen }

/-- Takes the value of a flag into account. -/
def take (r : Reading) (flag : Flag) (value : String) : Except Stop Reading :=
  if r.seen.contains flag then r.misuse ("--" ++ flag.long ++ " is given twice")
  else if flag.takes.accepts value then
    .ok { r with seen := flag :: r.seen, values := r.values ++ [(flag, value)] }
  else r.misuse ("'" ++ value ++ "' is no value for --" ++ flag.long)

/-- Does the word look like a flag, or end the flags? -/
def isFlagLike (word : String) : Bool :=
  match word.toList with
  | '-' :: _ :: _ => true
  | _ => false

/-- Takes the next word as the value of a flag. -/
def takeNext (r : Reading) (flag : Flag) : List String → Except Stop (Reading × List String)
  | value :: rest =>
    if isFlagLike value then r.misuse ("--" ++ flag.long ++ " needs a value")
    else (r.take flag value).map fun r => (r, rest)
  | [] => r.misuse ("--" ++ flag.long ++ " needs a value")

/-- Reads a flag by its long name, perhaps with a value. -/
def readLong (r : Reading) (word : List Char) (rest : List String) :
    Except Stop (Reading × List String) :=
  let (name, value?) := match Text.splitOnce? ['='] word with
    | some (name, value) => (name, some (String.ofList value))
    | none => (word, none)
  match r.longFlag? name, value? with
  | none, _ => r.misuse ("unexpected argument '--" ++ String.ofList word ++ "'")
  | some flag, some value =>
    if flag.takes = .nothing then r.misuse ("--" ++ flag.long ++ " takes no value")
    else (r.take flag value).map fun r => (r, rest)
  | some flag, none =>
    if flag.takes = .nothing then (r.switch flag).map fun r => (r, rest)
    else r.takeNext flag rest

/-- Reads flags by their letters; what follows the letter of a flag that takes a value is
its value. -/
def readLetters (r : Reading) (rest : List String) :
    List Char → Except Stop (Reading × List String)
  | [] => .ok (r, rest)
  | c :: cs =>
    match r.letterFlag? c with
    | none => r.misuse ("unexpected argument '-" ++ String.ofList [c] ++ "'")
    | some flag =>
      if flag.takes = .nothing then
        match r.switch flag with
        | .ok r => readLetters r rest cs
        | .error stop => .error stop
      else
        match cs with
        | [] => r.takeNext flag rest
        -- an equals sign may part the letter from its value
        | '=' :: value => (r.take flag (String.ofList value)).map fun r => (r, rest)
        | value => (r.take flag (String.ofList value)).map fun r => (r, rest)

/-- Takes an argument into account. -/
def argue (r : Reading) (word : String) : Except Stop Reading :=
  match r.shape.arguments[r.arguments.length]? with
  | none => r.misuse ("unexpected argument '" ++ word ++ "'")
  | some argument =>
    if argument.kind.accepts word then .ok { r with arguments := r.arguments ++ [word] }
    else r.misuse ("'" ++ word ++ "' is no value for <" ++ argument.name ++ ">")

/-- The shape to which the words after `help` lead. -/
def helpFor (r : Reading) : CommandShape → List String → Except Stop Reading
  | shape, [] => .error (.help shape)
  | shape, word :: rest =>
    match CommandShape.ofPath? (shape.path ++ [word]) with
    | some next => helpFor r next rest
    | none =>
      if word = "help" ∧ rest.isEmpty then .error (.help shape)
      else r.misuse ("unrecognized subcommand '" ++ word ++ "'")

/-- Reads a word that is no flag. -/
def readWord (r : Reading) (word : String) (rest : List String) :
    Except Stop (Reading × List String) :=
  let continues := !(CommandShape.continuations r.shape.path).isEmpty
  if r.closed || !continues then (r.argue word).map fun r => (r, rest)
  -- `help` takes the path of a command after it
  else if word = "help" then (r.helpFor r.shape rest).map fun r => (r, [])
  else
    match CommandShape.ofPath? (r.shape.path ++ [word]) with
    -- behind each word of the path a flag may stand once more
    | some shape => .ok ({ r with shape, seen := [] }, rest)
    | none => r.misuse ("unrecognized subcommand '" ++ word ++ "'")

/-- Reads the first word and what belongs to it. -/
def step (r : Reading) (word : String) (rest : List String) :
    Except Stop (Reading × List String) :=
  if r.closed then r.readWord word rest
  else
    match word.toList with
    | ['-', '-'] => .ok ({ r with closed := true }, rest)
    | '-' :: '-' :: name => r.readLong name rest
    | '-' :: c :: letters => r.readLetters rest (c :: letters)
    | _ => r.readWord word rest

/-- Reads words; every step takes one at least, so there is fuel enough in their number. -/
def run : Nat → Reading → List String → Except Stop Reading
  | _, r, [] => .ok r
  | 0, r, _ :: _ => .ok r
  | fuel + 1, r, word :: rest =>
    match r.step word rest with
    | .ok (r, rest) => run fuel r rest
    | .error stop => .error stop

end Reading

/-- A command and how its output is written. -/
structure Invocation where
  command : Command
  format : OutputFormat
  configPath : String
deriving DecidableEq

namespace Invocation

/-- The configuration that is read where no other is named. -/
def defaultConfig : String := "config.json"

/-- Reads the words of a command line. `fromEnvironment` names a configuration where no flag
does; an empty name is refused unless a flag stands with every word of the path and before
the first. -/
def read (fromEnvironment : Option String) (words : List String) : Except Stop Invocation := do
  let r ← Reading.run words.length {} words
  if r.shape.path ≠ [] ∧ !(CommandShape.continuations r.shape.path).isEmpty then
    r.misuse "a subcommand is missing"
  let named := r.values.countP fun v => v.1 == .config
  if fromEnvironment = some "" ∧ named ≤ r.shape.path.length then
    r.misuse "the path of the configuration is empty"
  let configPath :=
    -- the flag that was given last wins, then the environment
    ((Command.valueOf? r.values .config).or fromEnvironment).getD defaultConfig
  match Command.of? r.shape.path r.values r.arguments with
  | some command =>
    let format :=
      ((Command.valueOf? r.values .format).bind OutputFormat.ofName?).getD .table
    pure { command, format, configPath }
  | none => r.misuse "the required arguments were not provided"

/-- The format that words ask for, as far as that shows where they make no command. -/
def guessFormat : List String → OutputFormat
  | [] => .table
  | word :: rest =>
    if word = "-f" ∨ word = "--format" then
      match rest with
      | value :: _ => .guess value
      | [] => .table
    else
      match Text.after? "--format=" word with
      | some value => .guess value
      | none => guessFormat rest

end Invocation

end MotifQuery.CommandLine
