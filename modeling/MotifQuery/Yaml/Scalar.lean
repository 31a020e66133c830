import MotifQuery.Number.Integer
import MotifQuery.Yaml.Cursor

/-!
# `MotifQuery.Yaml.Scalar`: the texts of scalars

A scalar is written plain, in single or double quotes, or as a block. Line ends inside a
scalar are folded: one stands for a space, and of several the first stands for nothing. A
literal block keeps its lines, and double quotes allow escapes. Every reader starts at the
first character of the scalar and gives its text and the place after it.
-/

set_option autoImplicit false

namespace MotifQuery.Yaml

open Number

/-- White space inside a scalar, still to be folded. -/
structure Fold where
  /-- Spaces before any line end. -/
  spaces : List Char := []
  /-- The first line end; `none` before it. -/
  first : Option (List Char) := none
  /-- The line ends after the first. -/
  others : List Char := []

namespace Fold

/-- Is there nothing to fold? -/
def isEmpty (f : Fold) : Bool :=
  f.spaces.isEmpty && f.first.isNone

/-- What white space stands for. -/
def text (f : Fold) : List Char :=
  match f.first with
  | none => f.spaces
  | some ['\n'] => if f.others.isEmpty then [' '] else f.others
  | some first => first ++ f.others

/-- Takes a space. -/
def space (f : Fold) (c : Char) : Fold :=
  if f.first.isSome then f else { f with spaces := f.spaces ++ [c] }

/-- Takes a line end. -/
def lineEnd (f : Fold) (cs : List Char) : Fold :=
  match f.first with
  | none => { spaces := [], first := some cs, others := [] }
  | some _ => { f with others := f.others ++ cs }

end Fold

/-- Reads white space over lines. `least` is the column from which on a tab may stand after
a line end. -/
def readSpace (least : Nat) : Nat → Fold → Cursor → Option (Fold × Cursor)
  | 0, f, s => some (f, s)
  | fuel + 1, f, s =>
    match s.rest with
    | c :: _ =>
      if isSpace c then
        if f.first.isSome && s.column < least && c == '\t' then none
        else readSpace least fuel (f.space c) s.skip
      else if isBreak c then
        let (cs, s) := s.skipBreak
        readSpace least fuel (f.lineEnd cs) s
      else some (f, s)
    | [] => some (f, s)

/-! ### Plain scalars -/

/-- Is the character one that structures flow collections? -/
def isFlowMark (c : Char) : Bool :=
  c == ',' || c == '[' || c == ']' || c == '{' || c == '}'

/-- The characters of a plain scalar up to white space or its end; `none` at a colon that
stands before a flow mark. -/
def plainWord? (inFlow : Bool) : List Char → Option (List Char)
  | [] => some []
  | c :: rest =>
    if isSpace c || isBreak c then some []
    else if inFlow && c == ':' && (rest.head?.any fun d => isFlowMark d || d == '?') then none
    else if (c == ':' && endsWord rest) || (inFlow && isFlowMark c) then some []
    else (plainWord? inFlow rest).map (c :: ·)

/-- Reads on in a plain scalar that belongs to the column `least` or deeper. The flag tells
whether a line end stands after it. -/
def readPlainFrom (inFlow : Bool) (least : Nat) :
    Nat → List Char → Fold → Cursor → Option (List Char × Bool × Cursor)
  | 0, text, f, s => some (text, f.first.isSome, s)
  | fuel + 1, text, f, s =>
    if s.atMarker || s.rest.head? == some '#' then some (text, f.first.isSome, s)
    else
      match plainWord? inFlow s.rest with
      | none => none
      | some word =>
        -- white space counts only once a word follows it
        let (text, f) := if word.isEmpty then (text, f) else (text ++ f.text ++ word, {})
        let s := s.skips word.length
        match s.rest with
        | c :: _ =>
          if isSpace c || isBreak c then
            match readSpace least (s.rest.length + 1) f s with
            | none => none
            | some (f, s) =>
              -- a line further left belongs to what is around the scalar
              if !inFlow && s.column < least then some (text, f.first.isSome, s)
              else readPlainFrom inFlow least fuel text f s
          else some (text, f.first.isSome, s)
        | [] => some (text, f.first.isSome, s)

/-- Reads a plain scalar. -/
def readPlain (inFlow : Bool) (least : Nat) (s : Cursor) : Option (List Char × Bool × Cursor) :=
  readPlainFrom inFlow least (s.rest.length + 1) [] {} s

/-! ### Quoted scalars -/

/-- The character of an escape of one letter. -/
def escapeChar? (c : Char) : Option Char :=
  match c with
  | '0' => some '\x00'
  | 'a' => some '\x07'
  | 'b' => some '\x08'
  | 't' | '\t' => some '\t'
  | 'n' => some '\n'
  | 'v' => some '\x0b'
  | 'f' => some '\x0c'
  | 'r' => some '\r'
  | 'e' => some '\x1b'
  | ' ' => some ' '
  | '"' => some '"'
  | '/' => some '/'
  | '\\' => some '\\'
  | 'N' => some '\u0085'
  | '_' => some '\u00a0'
  | 'L' => some '\u2028'
  | 'P' => some '\u2029'
  | _ => none

/-- How many hexadecimal digits follow the letter of an escape. -/
def escapeDigits? (c : Char) : Option Nat :=
  match c with
  | 'x' => some 2
  | 'u' => some 4
  | 'U' => some 8
  | _ => none

/-- The character of an escape after its backslash, and the length of the escape. -/
def readEscape? : List Char → Option (Char × Nat)
  | [] => none
  | c :: rest =>
    match escapeDigits? c with
    | some width =>
      let digits := rest.take width
      if digits.length < width then none
      else
        (readHex? digits).bind fun n =>
          if n.isValidChar then some (Char.ofNat n, width + 1) else none
    | none => (escapeChar? c).map fun d => (d, 1)

/-- Reads a quoted scalar from a character after its opening quote. -/
def readQuotedFrom (quote : Char) : Nat → List Char → Cursor → Option (List Char × Cursor)
  | 0, _, _ => none
  | fuel + 1, text, s =>
    if s.atMarker then none
    else
      match s.rest with
      | [] => none
      | c :: rest =>
        if c = quote then
          -- in single quotes a doubled quote stands for one
          if quote = '\'' ∧ rest.head? = some '\'' then
            readQuotedFrom quote fuel (text ++ ['\'']) s.skip.skip
          else some (text, s.skip)
        else if quote = '"' ∧ c = '\\' then
          if rest.head?.any isBreak then
            -- an escaped line end stands for nothing, and so do the blanks after it
            match readSpace 0 rest.length { first := some [] } s.skip.skipBreak.2 with
            | some (f, s) => readQuotedFrom quote fuel (text ++ f.text) s
            | none => none
          else
            match readEscape? rest with
            | some (d, n) => readQuotedFrom quote fuel (text ++ [d]) (s.skips (n + 1))
            | none => none
        else if isSpace c || isBreak c then
          match readSpace 0 (s.rest.length + 1) {} s with
          | some (f, s) => readQuotedFrom quote fuel (text ++ f.text) s
          | none => none
        else readQuotedFrom quote fuel (text ++ [c]) s.skip

/-- Reads a quoted scalar. -/
def readQuoted (quote : Char) (s : Cursor) : Option (List Char × Cursor) :=
  readQuotedFrom quote (s.rest.length + 1) [] s.skip

/-! ### Block scalars -/

/-- What becomes of the line ends after a block. -/
inductive Chomping where
  /-- One stays. -/
  | clip
  /-- None stays. -/
  | strip
  /-- All stay. -/
  | keep
deriving DecidableEq

/-- Reads the sign of chomping. -/
def readChomping (s : Cursor) : Option Chomping × Cursor :=
  match s.rest with
  | '+' :: _ => (some .keep, s.skip)
  | '-' :: _ => (some .strip, s.skip)
  | _ => (none, s)

/-- Reads a digit of depth; the outer `none` stands for a zero. -/
def readDepth (s : Cursor) : Option (Option Nat × Cursor) :=
  match s.rest with
  | c :: _ =>
    if c = '0' then none
    else if Text.isAsciiDigit c then some (some (digitValue c), s.skip)
    else some (none, s)
  | [] => some (none, s)

/-- Reads the rest of the line that opens a block. -/
def readBlockLine (s : Cursor) : Option Cursor :=
  let s := s.skipWhile isSpace
  let s := if s.rest.head? = some '#' then s.skipWhile (fun c => !isBreak c) else s
  match s.rest with
  | [] => some s
  | c :: _ => if isBreak c then some s.skipBreak.2 else none

/-- Reads empty lines before a line of a block; a block whose column is not known yet is
`none`. Gives the line ends, the deepest column seen, and the place. -/
def readEmptyLines (column : Option Nat) :
    Nat → List Char → Nat → Cursor → Option (List Char × Nat × Cursor)
  | 0, ends, deepest, s => some (ends, deepest, s)
  | fuel + 1, ends, deepest, s =>
    let s := match column with
      | none => s.skipWhile (· == ' ')
      | some n =>
        let spaces := (s.rest.takeWhile (· == ' ')).length
        s.skips (min spaces (n - s.column))
    let deepest := max deepest s.column
    let before := match column with
      | none => true
      | some n => s.column < n
    match s.rest with
    | c :: _ =>
      if before && c == '\t' then none
      else if isBreak c then
        let (cs, s) := s.skipBreak
        readEmptyLines column fuel (ends ++ cs) deepest s
      else some (ends, deepest, s)
    | [] => some (ends, deepest, s)

/-- What is read of a block. -/
structure Block where
  text : List Char := []
  /-- The line end of the last line. -/
  lineEnd : List Char := []
  /-- The line ends of the empty lines after it. -/
  empty : List Char := []
  /-- The last line starts with a space. -/
  spaced : Bool := false

/-- Reads the lines of a block that stands at a column. -/
def readBlockLines (folded : Bool) (column : Nat) :
    Nat → Block → Cursor → Option (Block × Cursor)
  | 0, b, s => some (b, s)
  | fuel + 1, b, s =>
    if s.column ≠ column ∨ s.rest = [] then some (b, s)
    else
      let spaced := s.rest.head?.any isSpace
      let joint :=
        -- a folded block keeps the line ends around a line that starts with a space
        if folded && b.lineEnd == ['\n'] && !b.spaced && !spaced then
          if b.empty.isEmpty then [' '] else b.empty
        else b.lineEnd ++ b.empty
      let line := s.rest.takeWhile fun c => !isBreak c
      let (lineEnd, s) := (s.skips line.length).skipBreak
      match readEmptyLines (some column) (s.rest.length + 1) [] 0 s with
      | none => none
      | some (empty, _, s) =>
        readBlockLines folded column fuel
          { text := b.text ++ joint ++ line, lineEnd, empty, spaced } s

/-- Reads a block inside a collection at column `indent`. -/
def readBlock (folded : Bool) (indent : Int) (s : Cursor) : Option (List Char × Cursor) := do
  let s := s.skip
  let (chomping, s) := readChomping s
  let (depth, s) ← readDepth s
  -- the sign may stand before the digit or after it
  let (chomping, s) := match chomping with
    | some _ => (chomping, s)
    | none => readChomping s
  let s ← readBlockLine s
  let column := depth.map fun n => (max indent 0).toNat + n
  let (empty, deepest, s) ← readEmptyLines column (s.rest.length + 1) [] 0 s
  -- without a digit the deepest of the empty lines and the first other line tell the column
  let column := column.getD (max (max deepest (indent + 1).toNat) 1)
  let (b, s) ← readBlockLines folded column (s.rest.length + 1) { empty } s
  let text := match chomping.getD .clip with
    | .clip => b.text ++ b.lineEnd
    | .strip => b.text
    | .keep => b.text ++ b.lineEnd ++ b.empty
  pure (text, s)

end MotifQuery.Yaml
