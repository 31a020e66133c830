import MotifQuery.Cypher.Token
import MotifQuery.Motif.Parser

/-!
# `MotifQuery.Cypher.Syntax`: the shape of queries

A query names paths, conditions, the variables to return and a limit:

    MATCH (a:Neuron)-[:SYNAPSE]->(b), (b)<--(c)
    WHERE a.size > 2 AND c.kind <> "glia"
    RETURN a, c LIMIT 10

Each reader here takes the tokens still to read and gives what it read and the rest.
Keywords are words of any case. Conditions and the returned variables may only name
variables of the paths, so their readers are told those.
-/

set_option autoImplicit false

namespace MotifQuery.Cypher

open Text Number

/-- Why a text is no query. -/
inductive Fault where
  | lexical (fault : LexicalFault)
  /-- Something else was expected; what stands there instead, if anything. -/
  | expected (what : String) (found : Option Token)
  | unsupported (what : String)
  | unknownVariable (text : String)
  | invalidLimit (text : String)
  | leftOver (token : Token)
  | literal (fault : Motif.Fault)
deriving DecidableEq

/-- The message of a fault. -/
def Fault.message : Fault → String
  | lexical .unterminated => "Unterminated string literal"
  | lexical (.unexpected c) =>
    "Unexpected character `" ++ String.ofList [c] ++ "` in Cypher query"
  | expected what found =>
    "Expected " ++ what ++ ", found " ++ (found.map Token.describe).getD "end of query"
  | unsupported what => "Unsupported Cypher: " ++ what
  | unknownVariable text => "Variable `" ++ text ++ "` is not a MATCHed node"
  | invalidLimit text => "LIMIT must be a non-negative integer, got `" ++ text ++ "`"
  | leftOver token => "Unexpected " ++ token.describe ++ " after RETURN clause"
  | literal fault => fault.message

/-- The failure of a fault. -/
def Fault.toFailure (f : Fault) : Failure :=
  match f with
  | literal fault => fault.toFailure
  | unsupported _ =>
    (Failure.invalidQuery f.message "cypher:parse").withHint
      "Supported: MATCH (a)-->(b) [WHERE a.x > 1 AND ...] RETURN a, b [LIMIT n]"
  | _ => .invalidQuery f.message "cypher:parse"

/-- A node of a path. -/
structure NodePattern where
  variableName : String
  label : Option String
deriving DecidableEq

/-- A relationship of a path. -/
structure RelationPattern where
  /-- Does the arrow point to the later node? -/
  forward : Bool
  type : Option String
deriving DecidableEq

/-- A node and the relationships and nodes that follow it. -/
structure PathPattern where
  start : NodePattern
  steps : List (RelationPattern × NodePattern)
deriving DecidableEq

/-- A condition on an attribute of a variable. -/
structure Condition where
  variableName : String
  constraint : Constraint
deriving DecidableEq

/-- Drops a mark when it stands first. -/
def eat (m : Mark) (tokens : List Token) : Bool × List Token :=
  match tokens with
  | .mark n :: rest => if n = m then (true, rest) else (false, tokens)
  | _ => (false, tokens)

/-- Drops a keyword when it stands first. -/
def eatKeyword (keyword : String) (tokens : List Token) : Bool × List Token :=
  match tokens with
  | .word text :: rest =>
    if sameLetters text.toList keyword.toList then (true, rest) else (false, tokens)
  | _ => (false, tokens)

/-- Drops a mark that must stand first. -/
def skipMark (m : Mark) (tokens : List Token) : Except Fault (List Token) :=
  match eat m tokens with
  | (true, rest) => .ok rest
  | (false, _) => .error (.expected ("`" ++ m.text ++ "`") tokens.head?)

/-- Drops a keyword that must stand first. -/
def skipKeyword (keyword : String) (tokens : List Token) : Except Fault (List Token) :=
  match eatKeyword keyword tokens with
  | (true, rest) => .ok rest
  | (false, _) => .error (.expected keyword tokens.head?)

/-- Reads a word; `what` names it in the fault. -/
def readWord (what : String) : List Token → Except Fault (String × List Token)
  | .word text :: rest => .ok (text, rest)
  | tokens => .error (.expected what tokens.head?)

/-- Reads a name after a colon, when a colon stands first. -/
def readTag (what : String) (tokens : List Token) : Except Fault (Option String × List Token) :=
  match eat .colon tokens with
  | (true, rest) => (readWord what rest).map fun out => (some out.1, out.2)
  | (false, _) => .ok (none, tokens)

/-- Reads the variable of a node. -/
def readNodeVariable : List Token → Except Fault (String × List Token)
  | .word text :: rest => .ok (text, rest)
  | .mark .closeRound :: _ =>
    .error (.unsupported "anonymous nodes; name every node, as in `(a)`")
  | tokens => .error (.expected "a node variable" tokens.head?)

/-- Reads `(a)` or `(a:Label)`. -/
def readNode (tokens : List Token) : Except Fault (NodePattern × List Token) := do
  let tokens ← skipMark .openRound tokens
  let (variableName, tokens) ← readNodeVariable tokens
  let (label, tokens) ← readTag "a node label" tokens
  let tokens ← skipMark .closeRound tokens
  pure ({ variableName, label }, tokens)

/-- Drops a word when one stands first. -/
def dropWord : List Token → List Token
  | .word _ :: rest => rest
  | tokens => tokens

/-- Reads `[name:TYPE]`, when a bracket stands first; the name is dropped. -/
def readBrackets (tokens : List Token) : Except Fault (Option String × List Token) :=
  match eat .openSquare tokens with
  | (false, _) => .ok (none, tokens)
  | (true, tokens) => do
    let (type, tokens) ← readTag "a relationship type" (dropWord tokens)
    let tokens ← skipMark .closeSquare tokens
    pure (type, tokens)

/-- Reads `-->`, `-[..]->`, `<--` or `<-[..]-`. -/
def readRelation (tokens : List Token) : Except Fault (RelationPattern × List Token) :=
  match eat .arrowLeft tokens with
  | (true, tokens) => do
    let (type, tokens) ← readBrackets tokens
    let tokens ← skipMark .dash tokens
    pure ({ forward := false, type }, tokens)
  | (false, _) => do
    let tokens ← skipMark .dash tokens
    let (type, tokens) ← readBrackets tokens
    match eat .arrowRight tokens with
    | (true, tokens) => pure ({ forward := true, type }, tokens)
    | (false, _) => throw (.unsupported "undirected relationships; use `-->` or `<--`")

/-- Does a relationship stand first? -/
def startsRelation : List Token → Bool
  | .mark .dash :: _ | .mark .arrowLeft :: _ => true
  | _ => false

/-- Reads relationships with the nodes they lead to. -/
def readSteps : Nat → List Token → Except Fault (List (RelationPattern × NodePattern) × List Token)
  | 0, tokens => .ok ([], tokens)
  | fuel + 1, tokens =>
    if startsRelation tokens then do
      let (relation, tokens) ← readRelation tokens
      let (node, tokens) ← readNode tokens
      let (steps, tokens) ← readSteps fuel tokens
      pure ((relation, node) :: steps, tokens)
    else .ok ([], tokens)

/-- Reads a path. -/
def readPath (tokens : List Token) : Except Fault (PathPattern × List Token) := do
  let (start, tokens) ← readNode tokens
  -- every step takes a token, so the fuel suffices
  let (steps, tokens) ← readSteps (tokens.length + 1) tokens
  pure ({ start, steps }, tokens)

/-- Reads paths parted by commas. -/
def readPaths : Nat → List Token → Except Fault (List PathPattern × List Token)
  | 0, tokens => .ok ([], tokens)
  | fuel + 1, tokens => do
    let (path, tokens) ← readPath tokens
    match eat .comma tokens with
    | (true, tokens) => do
      let (paths, tokens) ← readPaths fuel tokens
      pure (path :: paths, tokens)
    | (false, _) => pure ([path], tokens)

/-- Reads one of the known variables. -/
def readKnown (known : List String) (tokens : List Token) : Except Fault (String × List Token) := do
  let (text, tokens) ← readWord "a variable" tokens
  if known.contains text then pure (text, tokens) else throw (.unknownVariable text)

/-- Reads a comparison operator; `a.x<-3` holds the mark `<-`, a comparison and the sign of
the number. The flag is set for such a sign. -/
def readComparison : List Token → Except Fault ((Comparison × Bool) × List Token)
  | .mark .equal :: rest => .ok ((.eq, false), rest)
  | .mark .unequal :: rest => .ok ((.ne, false), rest)
  | .mark .bangEqual :: rest => .ok ((.ne, false), rest)
  | .mark .less :: rest => .ok ((.lt, false), rest)
  | .mark .atMost :: rest => .ok ((.le, false), rest)
  | .mark .greater :: rest => .ok ((.gt, false), rest)
  | .mark .atLeast :: rest => .ok ((.ge, false), rest)
  | .mark .arrowLeft :: rest => .ok ((.lt, true), rest)
  | tokens => .error (.expected "a comparison operator" tokens.head?)

/-- The value of a number after its sign. -/
def numberLiteral (negative : Bool) (text : String) : Except Fault Json :=
  match readLiteral (if negative then '-' :: text.toList else text.toList) with
  | .ok value => .ok value
  | .error fault => .error (.literal fault)

/-- Reads a literal value; after a sign only a number. -/
def readValue (negative : Bool) (tokens : List Token) : Except Fault (Json × List Token) :=
  match tokens with
  | .number text :: rest => (numberLiteral negative text).map fun value => (value, rest)
  | .quoted _ text :: rest =>
    if negative then .error (.expected "a literal value" tokens.head?)
    else .ok (.str text, rest)
  | .word text :: rest =>
    if negative then .error (.expected "a literal value" tokens.head?)
    else if sameLetters text.toList ['t', 'r', 'u', 'e'] then .ok (.bool true, rest)
    else if sameLetters text.toList ['f', 'a', 'l', 's', 'e'] then .ok (.bool false, rest)
    else .error (.expected "a literal value" tokens.head?)
  | _ => .error (.expected "a literal value" tokens.head?)

/-- Reads a condition. -/
def readCondition (known : List String) (tokens : List Token) :
    Except Fault (Condition × List Token) := do
  let (variableName, tokens) ← readKnown known tokens
  let tokens ← skipMark .dot tokens
  let (name, tokens) ← readWord "an attribute name" tokens
  let ((comparison, signed), tokens) ← readComparison tokens
  -- after the mark `<-` the sign has been read already
  let (negative, tokens) := if signed then (true, tokens) else eat .dash tokens
  let (value, tokens) ← readValue negative tokens
  pure ({ variableName, constraint := { name, comparison, value } }, tokens)

/-- Reads conditions parted by `AND`. -/
def readConditions (known : List String) : Nat → List Token →
    Except Fault (List Condition × List Token)
  | 0, tokens => .ok ([], tokens)
  | fuel + 1, tokens => do
    let (condition, tokens) ← readCondition known tokens
    match eatKeyword "AND" tokens with
    | (true, tokens) => do
      let (conditions, tokens) ← readConditions known fuel tokens
      pure (condition :: conditions, tokens)
    | (false, _) => pure ([condition], tokens)

/-- Reads the conditions after `WHERE`, when that stands first. -/
def readWhere (known : List String) (tokens : List Token) :
    Except Fault (List Condition × List Token) :=
  match eatKeyword "WHERE" tokens with
  -- every condition takes a token, so the fuel suffices
  | (true, tokens) => readConditions known (tokens.length + 1) tokens
  | (false, _) => .ok ([], tokens)

/-- Reads variables parted by commas. -/
def readVariables (known : List String) : Nat → List Token → Except Fault (List String × List Token)
  | 0, tokens => .ok ([], tokens)
  | fuel + 1, tokens => do
    let (text, tokens) ← readKnown known tokens
    match eat .comma tokens with
    | (true, tokens) => do
      let (others, tokens) ← readVariables known fuel tokens
      pure (text :: others, tokens)
    | (false, _) => pure ([text], tokens)

/-- Reads what to return: all variables, or a list without its repeats. -/
def readColumns (known : List String) (tokens : List Token) :
    Except Fault (List String × List Token) :=
  match eat .star tokens with
  | (true, tokens) => .ok (known, tokens)
  | (false, _) =>
    (readVariables known (tokens.length + 1) tokens).map fun out => (out.1.eraseDups, out.2)

/-- Reads the limit after `LIMIT`, when that stands first. -/
def readLimit (tokens : List Token) : Except Fault (Option Nat × List Token) :=
  match eatKeyword "LIMIT" tokens with
  | (false, _) => .ok (none, tokens)
  | (true, .number text :: rest) =>
    match readUInt64? text.toList with
    | some n => .ok (some n, rest)
    | none => .error (.invalidLimit text)
  | (true, tokens) => .error (.expected "a LIMIT count" tokens.head?)

/-- Nothing but one semicolon may follow. -/
def readEnd (tokens : List Token) : Except Fault Unit :=
  match (eat .semicolon tokens).2 with
  | [] => .ok ()
  | token :: _ => .error (.leftOver token)

end MotifQuery.Cypher
