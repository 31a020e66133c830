import MotifQuery.Text.Split

/-!
# `MotifQuery.Yaml.Cursor`: places in a YAML text

A cursor is a place in a text, with its line and its column. Lines end at line feeds and
carriage returns, and at the Unicode line ends; the last two of those stand for
themselves in scalars, every other line end for a line feed.
-/

set_option autoImplicit false

namespace MotifQuery.Yaml

/-- A place in a text. -/
structure Cursor where
  rest : List Char
  line : Nat := 0
  column : Nat := 0
  /-- How many characters stand before it. -/
  offset : Nat := 0

/-- Does the character end a line? -/
def isBreak (c : Char) : Bool :=
  c == '\n' || c == '\r' || c == '\u0085' || c == '\u2028' || c == '\u2029'

/-- Is the character a space or a tab? -/
def isSpace (c : Char) : Bool :=
  c == ' ' || c == '\t'

/-- Is there a space, a line end or the end of the text? -/
def endsWord : List Char → Bool
  | [] => true
  | c :: _ => isSpace c || isBreak c

/-- Is there a line end or the end of the text? -/
def endsLine : List Char → Bool
  | [] => true
  | c :: _ => isBreak c

namespace Cursor

/-- Goes past a character within a line. -/
def skip (s : Cursor) : Cursor :=
  { s with rest := s.rest.tail, column := s.column + 1, offset := s.offset + 1 }

/-- Goes past `n` characters within a line. -/
def skips : Nat → Cursor → Cursor
  | 0, s => s
  | n + 1, s => skips n s.skip

/-- Goes past a line end, and gives the characters that it stands for. -/
def skipBreak (s : Cursor) : List Char × Cursor :=
  match s.rest with
  | '\r' :: '\n' :: rest => (['\n'], ⟨rest, s.line + 1, 0, s.offset + 2⟩)
  | c :: rest =>
    (if c = '\u2028' ∨ c = '\u2029' then [c] else ['\n'], ⟨rest, s.line + 1, 0, s.offset + 1⟩)
  | [] => ([], s)

/-- Goes on within a line while the characters satisfy a condition. -/
def skipWhile (p : Char → Bool) (s : Cursor) : Cursor :=
  let n := (s.rest.takeWhile p).length
  { s with rest := s.rest.drop n, column := s.column + n, offset := s.offset + n }

/-- Does a document marker stand at the start of a line? -/
def atMarker (s : Cursor) : Bool :=
  s.column == 0 &&
    match s.rest with
    | '-' :: '-' :: '-' :: rest | '.' :: '.' :: '.' :: rest => endsWord rest
    | _ => false

end Cursor

end MotifQuery.Yaml
