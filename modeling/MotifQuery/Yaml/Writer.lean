import MotifQuery.Number.Shortest
import MotifQuery.Yaml.Value

/-!
# `MotifQuery.Yaml.Writer`: values as YAML

Values are written in block style, two spaces a level; a list in an object stands at the
level of its key, and what is empty is written in one piece. A text is written plainly
where it reads back as itself, over several lines where it has line feeds, and otherwise
quoted: in single quotes unless it holds a character that only double quotes can hold.
-/

set_option autoImplicit false

namespace MotifQuery.Yaml

open Number

/-- Characters with their neighbours. -/
def withNeighbours : Option Char → List Char → List (Option Char × Char × Option Char)
  | _, [] => []
  | before, c :: rest => (before, c, rest.head?) :: withNeighbours (some c) rest

/-- Does nothing, a blank or a line end stand there? -/
def isGap (c : Option Char) : Bool :=
  c.all fun c => isSpace c || isBreak c

/-- Does the character, at the beginning of a plain text or inside it, mean something? -/
def isIndicator (before : Option Char) (c : Char) (after : Option Char) : Bool :=
  if before.isNone then
    "#,[]\x7b\x7d&*!|>\x27\"%@\x60".toList.contains c || ("?:-".toList.contains c && isGap after)
  else (c == ':' && isGap after) || (c == '#' && isGap before)

/-- Can the character be written as it is? -/
def standsForItself (c : Char) : Bool :=
  let n := c.toNat
  n == 0xA || (0x20 ≤ n && n ≤ 0x7E) || (0xA0 ≤ n && n ≤ 0xFFFD && n != 0xFEFF) || 0x10000 ≤ n

/-- Does a character that satisfies `p` stand before one that satisfies `q`? -/
def hasPair (p q : Char → Bool) : List Char → Bool
  | a :: b :: rest => (p a && q b) || hasPair p q (b :: rest)
  | _ => false

/-- Is there a space before a line end, or a character that must be escaped? -/
def needsEscapes (cs : List Char) : Bool :=
  hasPair (· == ' ') isBreak cs || !cs.all standsForItself

/-- Can single quotes hold the text? -/
def fitsSingle (cs : List Char) : Bool :=
  !needsEscapes cs && !hasPair isBreak (· == ' ') cs

/-- Can lines hold the text? -/
def fitsLines (cs : List Char) : Bool :=
  !needsEscapes cs && cs.getLast? != some ' '

/-- Can the text stand plainly? -/
def fitsPlain (cs : List Char) : Bool :=
  fitsSingle cs && !cs.any isBreak && cs.head? != some ' ' && cs.getLast? != some ' ' &&
    cs.take 3 != ['-', '-', '-'] && cs.take 3 != ['.', '.', '.'] &&
    !(withNeighbours none cs).any fun (t : Option Char × Char × Option Char) =>
      isIndicator t.1 t.2.1 t.2.2

/-- Truth values of old. -/
def oldTruthValues : List String :=
  ["y", "Y", "yes", "Yes", "YES", "n", "N", "no", "No", "NO", "on", "On", "ON", "off", "Off",
    "OFF"]

/-- Would the text, written plainly, be read as itself? -/
def readsAsText (s : String) : Bool :=
  !oldTruthValues.contains s && plainValue? s == some (.str s) && !isPaddedNumber s.toList

/-- The text in single quotes. -/
def singleQuoted (cs : List Char) : List Char :=
  '\'' :: Text.replaceChar '\'' ['\'', '\''] cs ++ ['\'']

/-- The letter of an escape. -/
def escapeLetter? (c : Char) : Option Char :=
  match c.toNat with
  | 0x00 => some '0'
  | 0x07 => some 'a'
  | 0x08 => some 'b'
  | 0x09 => some 't'
  | 0x0A => some 'n'
  | 0x0B => some 'v'
  | 0x0C => some 'f'
  | 0x0D => some 'r'
  | 0x1B => some 'e'
  | 0x22 => some '"'
  | 0x5C => some '\\'
  | 0x85 => some 'N'
  | 0xA0 => some '_'
  | 0x2028 => some 'L'
  | 0x2029 => some 'P'
  | _ => none

/-- The digits of an escape. -/
def escapeNumber (n : Nat) : List Char :=
  let digits (mark : Char) (width : Nat) := mark :: (hexDigits width n).map Char.toUpper
  if n ≤ 0xFF then digits 'x' 2 else if n ≤ 0xFFFF then digits 'u' 4 else digits 'U' 8

/-- A character in double quotes. -/
def doubleQuotedChar (c : Char) : List Char :=
  if standsForItself c && !isBreak c && c != '"' && c != '\\' then [c]
  else
    match escapeLetter? c with
    | some letter => ['\\', letter]
    | none => '\\' :: escapeNumber c.toNat

/-- The text in double quotes. -/
def doubleQuoted (cs : List Char) : List Char :=
  '"' :: cs.flatMap doubleQuotedChar ++ ['"']

/-- The text in quotes. -/
def quotedText (cs : List Char) : List Char :=
  if fitsSingle cs then singleQuoted cs else doubleQuoted cs

/-- What follows the bar of a text over several lines: where the text begins, if that does
not show, and what becomes of the line feeds at its end. -/
def blockHints (cs : List Char) : List Char :=
  -- blanks at the beginning would be taken for indentation
  let depth := if cs.head?.any fun c => c == ' ' || isBreak c then ['2'] else []
  let ending :=
    match cs.reverse with
    -- one line feed at the end needs no sign, further ones must be kept
    | '\n' :: rest => if rest.head?.all isBreak then ['+'] else []
    | _ => ['-']
  depth ++ ending

/-- A text over several lines, without the last line feed. -/
def linesText (indent : Nat) (cs : List Char) : List Char :=
  let lines := match Text.pieces '\n' cs with
    | [] => []
    | pieces => if cs.getLast? == some '\n' then pieces.dropLast else pieces
  '|' :: blockHints cs ++
    lines.flatMap fun line =>
      '\n' :: (if line.isEmpty then [] else List.replicate indent ' ' ++ line)

/-- A text as a value; `indent` is where its lines begin, if it needs several. -/
def textChars (indent : Nat) (s : String) : List Char :=
  let cs := s.toList
  if cs.contains '\n' then if fitsLines cs then linesText indent cs else doubleQuoted cs
  else if readsAsText s && fitsPlain cs then cs
  else quotedText cs

/-- Can the text be a key on one line? -/
def isShortKey (s : String) : Bool :=
  !s.toList.any isBreak && s.utf8ByteSize ≤ 128

/-- The values that fit on a line. -/
def scalarChars (indent : Nat) : Json → List Char
  | .null => ['n', 'u', 'l', 'l']
  | .bool true => ['t', 'r', 'u', 'e']
  | .bool false => ['f', 'a', 'l', 's', 'e']
  | .int n => intChars n
  -- the exponent of a number goes without a plus sign
  | .float x => (jsonChars x).filter (· != '+')
  | .str s => textChars indent s
  | .arr _ => ['[', ']']
  | .obj _ => ['{', '}']

/-- A new line that begins at a column. -/
def newLine (indent : Nat) : List Char :=
  '\n' :: List.replicate indent ' '

mutual

/-- The fields of an object, a line each, at a column. -/
def fieldsChars (indent : Nat) : List (String × Json) → List Char
  | [] => []
  | [field] => fieldChars indent field
  | field :: next :: rest =>
    fieldChars indent field ++ newLine indent ++ fieldsChars indent (next :: rest)

/-- A field of an object; a long key has a line of its own. -/
def fieldChars (indent : Nat) : String × Json → List Char
  | (key, value) =>
    let keyChars := textChars (indent + 2) key
    if isShortKey key then keyChars ++ ':' :: afterKey indent value
    else '?' :: ' ' :: keyChars ++ newLine indent ++ ':' :: afterMark indent value

/-- The value of a key. -/
def afterKey (indent : Nat) : Json → List Char
  | .obj (field :: rest) => newLine (indent + 2) ++ fieldsChars (indent + 2) (field :: rest)
  | .arr (item :: rest) => newLine indent ++ itemsChars indent (item :: rest)
  | value => ' ' :: scalarChars (indent + 2) value

/-- The items of a list, a line each, at a column. -/
def itemsChars (indent : Nat) : List Json → List Char
  | [] => []
  | [item] => '-' :: afterMark indent item
  | item :: next :: rest =>
    '-' :: afterMark indent item ++ newLine indent ++ itemsChars indent (next :: rest)

/-- What follows the mark of an item, on its line. -/
def afterMark (indent : Nat) : Json → List Char
  | .obj (field :: rest) => ' ' :: fieldsChars (indent + 2) (field :: rest)
  | .arr (item :: rest) => ' ' :: itemsChars (indent + 2) (item :: rest)
  | value => ' ' :: scalarChars (indent + 2) value

end

/-- A value as a YAML document. -/
def write (j : Json) : String :=
  let chars := match j with
    | .obj (field :: rest) => fieldsChars 0 (field :: rest)
    | .arr (item :: rest) => itemsChars 0 (item :: rest)
    | value => scalarChars 2 value
  String.ofList (chars ++ ['\n'])

end MotifQuery.Yaml
