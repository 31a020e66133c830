import MotifQuery.Motif.Basic

/-!
# `MotifQuery.Motif.Parser`: the motif language

A motif is written one statement per line, or several on a line parted by `;`, and a `#`
outside quotes starts a comment. `A -> B [w >= 4]` requires an edge, `A !> B` forbids one,
and `A.kind = "x"` restricts a vertex. `Statement.parse` reads one statement;
`Motif.parse` adds the statements of a text one after the other and reports the first
that is none, with its line and its text.
-/

set_option autoImplicit false

namespace MotifQuery

open Text Number

/-- Why a text is no motif. -/
inductive Motif.Fault where
  | invalidIdentifier (text : String)
  | missingComparison (text : String)
  | unknownOperator (text : String)
  | invalidValue (text : String)
  | noStatement (text : String)
  | unclosedBlock
  | empty
deriving DecidableEq

/-- The message of a fault. -/
def Motif.Fault.message : Motif.Fault → String
  | invalidIdentifier text => "Invalid identifier `" ++ text ++ "`"
  | missingComparison text => "Expected a comparison in `" ++ text ++ "`"
  | unknownOperator text => "Unknown comparison operator in `" ++ text ++ "`"
  | invalidValue text => "Cannot parse constraint value `" ++ text ++ "`"
  | noStatement text =>
    "Expected an edge or a `Vertex.attribute` constraint, got `" ++ text ++ "`"
  | unclosedBlock => "Unclosed edge constraint block"
  | empty => "Motif has no statements"

/-- The failure of a fault. -/
def Motif.Fault.toFailure (f : Motif.Fault) : Failure :=
  .invalidQuery f.message "motif:parse"

/-- The part of a line before its comment; `quote` is the quote that stands open. -/
def beforeComment : Option Char → List Char → List Char
  | _, [] => []
  | none, c :: cs =>
    if c = '#' then []
    else c :: beforeComment (if c = '"' ∨ c = '\'' then some c else none) cs
  | some quote, c :: cs =>
    c :: beforeComment (if c = quote then none else some quote) cs

/-- May the character start an identifier? -/
def startsIdentifier (c : Char) : Bool :=
  isAsciiLetter c || c == '_'

/-- May the character stand inside an identifier? -/
def continuesIdentifier (c : Char) : Bool :=
  isAsciiLetter c || isAsciiDigit c || c == '_'

/-- Is the text an identifier? -/
def isIdentifier : List Char → Bool
  | [] => false
  | c :: cs => startsIdentifier c && cs.all continuesIdentifier

/-- Reads an identifier with blanks around it. -/
def readIdentifier (cs : List Char) : Except Motif.Fault String :=
  let cs := trim cs
  if isIdentifier cs then .ok (String.ofList cs)
  else .error (.invalidIdentifier (String.ofList cs))

/-- Reads an operator at the start of a text. -/
def readOperator? : List Char → Option (Comparison × List Char)
  | '=' :: '=' :: rest => some (.eq, rest)
  | '!' :: '=' :: rest => some (.ne, rest)
  | '>' :: '=' :: rest => some (.ge, rest)
  | '<' :: '=' :: rest => some (.le, rest)
  | '=' :: rest => some (.eq, rest)
  | '>' :: rest => some (.gt, rest)
  | '<' :: rest => some (.lt, rest)
  | _ => none

/-- Does the character belong to operators only? -/
def isOperatorChar (c : Char) : Bool :=
  c == '=' || c == '!' || c == '<' || c == '>'

/-- Cuts a comparison at its operator. -/
def splitComparison (cs : List Char) : Except Motif.Fault (List Char × Comparison × List Char) :=
  match cs.dropWhile (fun c => !isOperatorChar c) with
  | [] => .error (.missingComparison (String.ofList cs))
  | rest =>
    match readOperator? rest with
    -- what follows the operator is the value, further operators included
    | some (op, value) => .ok (trim (cs.takeWhile fun c => !isOperatorChar c), op, trim value)
    -- a `!` without `=` is an operator character but no operator
    | none => .error (.unknownOperator (String.ofList cs))

/-- The text between two equal quotes. -/
def unquote? (quote : Char) : List Char → Option (List Char)
  | [] => none
  | c :: cs => if c = quote then dropEnding? [quote] cs else none

/-- The value that a text without quotes writes: a truth value, a whole number of 64 bits
or another number. -/
def readBareValue? (cs : List Char) : Option Json :=
  let s := String.ofList cs
  if s = "true" ∨ s = "True" then some (.bool true)
  else if s = "false" ∨ s = "False" then some (.bool false)
  else
    match readInt64? cs with
    | some n => some (.int n)
    | none => (readDouble? cs).map .ofDouble

/-- The value that a text writes. -/
def readLiteral (cs : List Char) : Except Motif.Fault Json :=
  let cs := trim cs
  match unquote? '"' cs with
  | some inner => .ok (.str (String.ofList inner))
  | none =>
    match unquote? '\'' cs with
    | some inner => .ok (.str (String.ofList inner))
    | none =>
      match readBareValue? cs with
      | some value => .ok value
      | none => .error (.invalidValue (String.ofList cs))

/-- Reads `attribute op value`. -/
def Constraint.parse (cs : List Char) : Except Motif.Fault Constraint := do
  let (name, comparison, value) ← splitComparison cs
  let name ← readIdentifier name
  let value ← readLiteral value
  pure { name, comparison, value }

/-- A statement of the motif language. -/
inductive Statement where
  | edge (e : MotifEdge)
  | vertex (entity : String) (c : Constraint)
deriving DecidableEq

namespace Statement

/-- Reads the constraints inside brackets. -/
def parseBlock (cs : List Char) : Except Motif.Fault (List Constraint) :=
  (((pieces ',' cs).map trim).filter fun piece => !piece.isEmpty).mapM Constraint.parse

/-- Reads what stands on both sides of an arrow. -/
def parseEdge (left right : List Char) (required : Bool) : Except Motif.Fault Statement := do
  let source ← readIdentifier left
  match splitOnce? ['['] right with
  | none =>
    let target ← readIdentifier right
    pure (.edge { source, target, required })
  | some (before, rest) =>
    match dropEnding? [']'] (trimEnd rest) with
    | none => throw .unclosedBlock
    | some body =>
      -- a fault inside the brackets is told before one in the target
      let constraints ← parseBlock body
      let target ← readIdentifier before
      pure (.edge { source, target, required, constraints })

/-- Reads a constraint on a vertex. -/
def parseVertex (cs : List Char) : Except Motif.Fault Statement := do
  let (left, comparison, value) ← splitComparison cs
  match splitOnce? ['.'] left with
  | none => throw (.noStatement (String.ofList cs))
  | some (entity, name) =>
    let entity ← readIdentifier entity
    let name ← readIdentifier name
    let value ← readLiteral value
    pure (.vertex entity { name, comparison, value })

/-- Reads a statement. -/
def parse (cs : List Char) : Except Motif.Fault Statement :=
  -- the arrow is looked for in the whole statement, quoted values included
  match splitOnce? ['-', '>'] cs with
  | some (left, right) => parseEdge left right true
  | none =>
    match splitOnce? ['!', '>'] cs with
    | some (left, right) => parseEdge left right false
    | none => parseVertex cs

end Statement

namespace Motif

/-- Adds a statement. -/
def add (m : Motif) : Statement → Motif
  | .edge e => ((m.mention e.source).mention e.target).connect e
  | .vertex entity c => (m.mention entity).constrain entity c

/-- The statements on a line, comments and blank ones left out. -/
def statementsOn (line : List Char) : List (List Char) :=
  -- a semicolon parts statements inside quotes too, where a comment sign starts nothing
  ((pieces ';' (beforeComment none line)).map trim).filter fun cs => !cs.isEmpty

/-- Adds the statements of the line with number `n`. -/
def addLine (n : Nat) (m : Motif) (line : List Char) : Except Failure Motif :=
  (statementsOn line).foldlM
    (fun m cs =>
      match Statement.parse cs with
      | .ok statement => .ok (m.add statement)
      | .error fault =>
        .error ((fault.toFailure.withContext "line" (natText n)).withContext
          "statement" (String.ofList cs)))
    m

/-- Adds lines, numbered from `n`. -/
def addLines : Nat → Motif → List (List Char) → Except Failure Motif
  | _, m, [] => .ok m
  | n, m, line :: rest =>
    match addLine n m line with
    | .ok m => addLines (n + 1) m rest
    | .error failure => .error failure

/-- Reads a motif. -/
def parse (source : String) : Except Failure Motif :=
  match addLines 1 .empty (lines source.toList) with
  -- every statement mentions an entity, so without entities there was none
  | .ok m => if m.entities.isEmpty then .error Fault.empty.toFailure else .ok m
  | .error failure => .error failure

end Motif

end MotifQuery
