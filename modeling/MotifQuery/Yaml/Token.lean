import MotifQuery.Yaml.Scalar

/-!
# `MotifQuery.Yaml.Token`: tokens of YAML

Block collections are marked by indentation: the scanner keeps the columns of the open
ones, opens a collection at a deeper column and closes those left of the next token. A
text becomes a key only when the colon after it is seen, so the scanner remembers, for
every open flow collection, where a key might have started; the key must lie on one line
and be short.
-/

set_option autoImplicit false

namespace MotifQuery.Yaml

/-- A token. -/
inductive Token where
  | directive
  | documentStart
  | documentEnd
  | streamEnd
  | sequenceStart
  | mappingStart
  | blockEnd
  | flowSequenceStart
  | flowSequenceEnd
  | flowMappingStart
  | flowMappingEnd
  | entry
  | flowEntry
  | key
  | value
  | anchor (name : String)
  | alias (name : String)
  | tag (name : String)
  /-- A scalar; the flag is set for plain ones. -/
  | scalar (text : String) (plain : Bool)
deriving DecidableEq

/-- Where a key might have started. -/
structure KeyMark where
  /-- It must become one. -/
  required : Bool
  /-- How many tokens come before it. -/
  tokens : Nat
  line : Nat
  column : Nat
  offset : Nat

/-- The state of the scanner. -/
structure Scan where
  cursor : Cursor
  /-- The column of the innermost block collection. -/
  indent : Int := -1
  /-- The columns of those around it, from the inside. -/
  indents : List Int := []
  /-- The marks of keys, for the open flow collections from the inside and for the block
  around them. -/
  marks : List (Option KeyMark) := [none]
  keyAllowed : Bool := true
  tokens : Array Token := #[]

namespace Scan

/-- The column of the cursor. -/
def column (s : Scan) : Nat :=
  s.cursor.column

/-- Is a flow collection open? -/
def inFlow (s : Scan) : Bool :=
  1 < s.marks.length

/-- Appends a token. -/
def emit (s : Scan) (t : Token) : Scan :=
  { s with tokens := s.tokens.push t }

/-- Goes past `n` characters. -/
def skips (n : Nat) (s : Scan) : Scan :=
  { s with cursor := s.cursor.skips n }

/-- Says whether a key may start next. -/
def allowKey (s : Scan) (allowed : Bool) : Scan :=
  { s with keyAllowed := allowed }

/-- Opens a block collection at a column, if it is deeper than the innermost one; the token
comes after `n` others. -/
def openBlock (s : Scan) (column : Nat) (n : Nat) (t : Token) : Scan :=
  if s.inFlow || (column : Int) ≤ s.indent then s
  else
    { s with
      indent := column
      indents := s.indent :: s.indents
      tokens := s.tokens.insertIdxIfInBounds n t }

/-- Closes the block collections deeper than a column. -/
def closeBlocks (column : Int) : List Int → Scan → Scan
  | [], s => s
  | outer :: rest, s =>
    if s.indent ≤ column then s
    else closeBlocks column rest { (s.emit .blockEnd) with indent := outer, indents := rest }

/-- Closes the block collections deeper than a column, outside flow collections. -/
def unroll (s : Scan) (column : Int) : Scan :=
  if s.inFlow then s else closeBlocks column s.indents s

/-- Forgets the mark of the innermost key; `none` when it had to become a key. -/
def dropMark (s : Scan) : Option Scan :=
  match s.marks with
  | some mark :: rest => if mark.required then none else some { s with marks := none :: rest }
  | _ => some s

/-- The mark of a key that starts here. -/
def mark (s : Scan) : KeyMark :=
  { required := !s.inFlow && s.indent == (s.column : Int)
    tokens := s.tokens.size
    line := s.cursor.line
    column := s.column
    offset := s.cursor.offset }

/-- Marks that a key may start here. -/
def markKey (s : Scan) : Option Scan :=
  if s.keyAllowed then s.dropMark.map fun s => { s with marks := some s.mark :: s.marks.tail }
  else some s

/-- Forgets a mark that lies too far back; `none` when it had to become a key. -/
def freshMark (c : Cursor) : Option KeyMark → Option (Option KeyMark)
  | none => some none
  | some mark =>
    -- a key lies on one line and takes at most 1024 characters
    if mark.line < c.line ∨ mark.offset + 1024 < c.offset then
      if mark.required then none else some none
    else some (some mark)

/-- Forgets the marks that lie too far back. -/
def dropStale (s : Scan) : Option Scan :=
  (s.marks.mapM (freshMark s.cursor)).map fun marks => { s with marks }

/-- Goes past blanks, comments and line ends to the next token. -/
def toToken : Nat → Scan → Scan
  | 0, s => s
  | fuel + 1, s =>
    -- where a key might start a tab would hide its column
    let tabs := s.inFlow || !s.keyAllowed
    let c := s.cursor.skipWhile fun c => c == ' ' || (tabs && c == '\t')
    let c := if c.rest.head? = some '#' then c.skipWhile (fun c => !isBreak c) else c
    let s := { s with cursor := c }
    if c.rest.head?.any isBreak then
      let s := { s with cursor := c.skipBreak.2 }
      toToken fuel (if s.inFlow then s else s.allowKey true)
    else s

/-! ### The tokens -/

/-- Ends the text. -/
def finish (s : Scan) : Option Scan :=
  ((s.unroll (-1)).dropMark).map fun s => s.emit .streamEnd

/-- The part of a directive line before its comment, in words. -/
def directiveWords (line : List Char) : List (List Char) :=
  ((Text.pieces ' ' (line.map fun c => if c = '\t' then ' ' else c)).filter
    fun word => !word.isEmpty).takeWhile fun word => word.head? != some '#'

/-- Is the line a directive that is known? -/
def knownDirective (line : List Char) : Bool :=
  match (directiveWords line).map String.ofList with
  | ["%YAML", version] => version == "1.1" || version == "1.2"
  | ["%TAG", _, _] => true
  | _ => false

/-- Reads a directive. -/
def directive (s : Scan) : Option Scan :=
  (s.unroll (-1)).dropMark.bind fun s =>
    let line := s.cursor.rest.takeWhile fun c => !isBreak c
    if knownDirective line then some (((s.allowKey false).skips line.length).emit .directive)
    else none

/-- Reads a document marker. -/
def marker (s : Scan) (t : Token) : Option Scan :=
  (s.unroll (-1)).dropMark.map fun s => ((s.allowKey false).skips 3).emit t

/-- Opens a flow collection. -/
def openFlow (s : Scan) (t : Token) : Option Scan :=
  s.markKey.map fun s =>
    ((({ s with marks := none :: s.marks }).allowKey true).skips 1).emit t

/-- Closes a flow collection. -/
def closeFlow (s : Scan) (t : Token) : Option Scan :=
  s.dropMark.map fun s =>
    let s := if s.inFlow then { s with marks := s.marks.tail } else s
    ((s.allowKey false).skips 1).emit t

/-- Parts the entries of a flow collection. -/
def flowEntry (s : Scan) : Option Scan :=
  s.dropMark.map fun s => ((s.allowKey true).skips 1).emit .flowEntry

/-- Starts an entry of a block sequence. -/
def blockEntry (s : Scan) : Option Scan :=
  -- an entry cannot follow a key on its line
  if !s.inFlow && !s.keyAllowed then none
  else
    let s := s.openBlock s.column s.tokens.size .sequenceStart
    s.dropMark.map fun s => ((s.allowKey true).skips 1).emit .entry

/-- Starts a key by its sign. -/
def keySign (s : Scan) : Option Scan :=
  if !s.inFlow && !s.keyAllowed then none
  else
    let s := s.openBlock s.column s.tokens.size .mappingStart
    s.dropMark.map fun s => ((s.allowKey (!s.inFlow)).skips 1).emit .key

/-- Starts a value; what was marked before it becomes its key. -/
def valueSign (s : Scan) : Option Scan :=
  match s.marks with
  | some mark :: rest =>
    let s := { s with
      marks := none :: rest
      -- the tokens since the mark become the key
      tokens := s.tokens.insertIdxIfInBounds mark.tokens .key }
    let s := s.openBlock mark.column mark.tokens .mappingStart
    some (((s.allowKey false).skips 1).emit .value)
  | _ =>
    if !s.inFlow && !s.keyAllowed then none
    else
      let s := s.openBlock s.column s.tokens.size .mappingStart
      some (((s.allowKey (!s.inFlow)).skips 1).emit .value)

/-- May the character stand in the name of an anchor? -/
def isNameChar (c : Char) : Bool :=
  Text.isAsciiLetter c || Text.isAsciiDigit c || c == '_' || c == '-'

/-- May the text follow the name of an anchor? -/
def endsName (cs : List Char) : Bool :=
  endsWord cs || cs.head?.any fun c => "?:,]%@\x60\x7d".toList.contains c

/-- Reads an anchor or an alias. -/
def anchor (s : Scan) (wrap : String → Token) : Option Scan :=
  s.markKey.bind fun s =>
    let name := s.cursor.rest.tail.takeWhile isNameChar
    let s := (s.allowKey false).skips (name.length + 1)
    if name.isEmpty || !endsName s.cursor.rest then none
    else some (s.emit (wrap (String.ofList name)))

/-- The full name of a tag. -/
def tagName (cs : List Char) : String :=
  match cs with
  | '!' :: '!' :: rest => "tag:yaml.org,2002:" ++ String.ofList rest
  | '!' :: '<' :: rest => String.ofList (rest.takeWhile (· != '>'))
  | _ => String.ofList cs

/-- Reads a tag. -/
def tag (s : Scan) : Option Scan :=
  s.markKey.map fun s =>
    let inFlow := s.inFlow
    let text := s.cursor.rest.takeWhile fun c =>
      !(isSpace c || isBreak c || (inFlow && isFlowMark c))
    ((s.allowKey false).skips text.length).emit (.tag (tagName text))

/-- Reads a block scalar. -/
def blockScalar (s : Scan) (folded : Bool) : Option Scan := do
  let s ← s.dropMark
  let (text, cursor) ← readBlock folded s.indent s.cursor
  pure (({ s with cursor }.allowKey true).emit (.scalar (String.ofList text) false))

/-- Reads a quoted scalar. -/
def quotedScalar (s : Scan) (quote : Char) : Option Scan := do
  let s ← s.markKey
  let (text, cursor) ← readQuoted quote s.cursor
  pure (({ s with cursor }.allowKey false).emit (.scalar (String.ofList text) false))

/-- Reads a plain scalar. -/
def plainScalar (s : Scan) : Option Scan := do
  let s ← s.markKey
  let (text, newLine, cursor) ← readPlain s.inFlow (s.indent + 1).toNat s.cursor
  pure (({ s with cursor }.allowKey newLine).emit (.scalar (String.ofList text) true))

/-- May a plain scalar start here? -/
def startsPlain (inFlow : Bool) (c : Char) (rest : List Char) : Bool :=
  if c = '-' then !(rest.head?.any isSpace)
  else if c = '?' ∨ c = ':' then !inFlow && !endsWord rest
  else !(isSpace c || isFlowMark c || "#&*!|>%@\x60\x22\x27".toList.contains c)

/-- Reads the token that starts with `c`. -/
def tokenAt (s : Scan) (c : Char) (rest : List Char) : Option Scan :=
  let inFlow := s.inFlow
  -- the order matters: markers and signs come before plain scalars
  if c = '%' ∧ s.column = 0 then s.directive
  else if s.cursor.atMarker then s.marker (if c = '-' then .documentStart else .documentEnd)
  else if c = '[' then s.openFlow .flowSequenceStart
  else if c = '{' then s.openFlow .flowMappingStart
  else if c = ']' then s.closeFlow .flowSequenceEnd
  else if c = '}' then s.closeFlow .flowMappingEnd
  else if c = ',' then s.flowEntry
  else if c = '-' ∧ endsWord rest then s.blockEntry
  else if c = '?' ∧ (inFlow ∨ endsWord rest) then s.keySign
  else if c = ':' ∧ (inFlow ∨ endsWord rest) then s.valueSign
  else if c = '*' then s.anchor .alias
  else if c = '&' then s.anchor .anchor
  else if c = '!' then s.tag
  else if c = '|' ∧ !inFlow then s.blockScalar false
  else if c = '>' ∧ !inFlow then s.blockScalar true
  else if c = '\'' ∨ c = '"' then s.quotedScalar c
  else if startsPlain inFlow c rest then s.plainScalar
  else none

/-- Reads tokens up to the end of the text. -/
def run : Nat → Scan → Option (List Token)
  | 0, _ => none
  | fuel + 1, s =>
    let s := s.toToken (s.cursor.rest.length + 1)
    match s.dropStale with
    | none => none
    | some s =>
      -- collections deeper than the next token end before it
      let s := s.unroll s.column
      match s.cursor.rest with
      | [] => s.finish.map fun s => s.tokens.toList
      | c :: rest =>
        match s.tokenAt c rest with
        | some s => run fuel s
        | none => none

end Scan

/-- May the character stand in a text? -/
def isPrintable (c : Char) : Bool :=
  let n := c.toNat
  n == 0x9 || n == 0xA || n == 0xD || (0x20 ≤ n && n ≤ 0x7E) || n == 0x85 ||
    (0xA0 ≤ n && n ≤ 0xFFFD) || 0x10000 ≤ n

/-- The text after the mark that may open it. -/
def dropMark (cs : List Char) : List Char :=
  match cs with
  | '\ufeff' :: rest => rest
  | _ => cs

/-- The tokens of a text. -/
def tokens? (cs : List Char) : Option (List Token) :=
  let cs := dropMark cs
  if cs.all isPrintable then Scan.run (cs.length + 2) { cursor := { rest := cs } } else none

end MotifQuery.Yaml
