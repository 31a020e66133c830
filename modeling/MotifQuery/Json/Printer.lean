import MotifQuery.Json.Basic
import MotifQuery.Number.Shortest

/-!
# `MotifQuery.Json.Printer`: JSON text

The compact form has no blank characters between tokens. The indented form puts every
item and field on a line of its own, two spaces deeper than its container, and writes an
empty container in one piece. In strings the quote, the backslash and the control
characters are escaped; every other character stands for itself.
-/

set_option autoImplicit false

namespace MotifQuery.Json

open Number

/-- A character inside a quoted string. -/
def escapeChar (c : Char) : List Char :=
  if c = '"' then ['\\', '"']
  else if c = '\\' then ['\\', '\\']
  else if c = '\n' then ['\\', 'n']
  else if c = '\r' then ['\\', 'r']
  else if c = '\t' then ['\\', 't']
  else if c = Char.ofNat 8 then ['\\', 'b']
  else if c = Char.ofNat 12 then ['\\', 'f']
  else if c.toNat < 32 then '\\' :: 'u' :: hexDigits 4 c.toNat
  else [c]

/-- A quoted string. -/
def quoted (s : String) : List Char :=
  '"' :: s.toList.flatMap escapeChar ++ ['"']

mutual

/-- The compact form of a value. -/
def compactChars : Json → List Char
  | .null => ['n', 'u', 'l', 'l']
  | .bool true => ['t', 'r', 'u', 'e']
  | .bool false => ['f', 'a', 'l', 's', 'e']
  | .int n => intChars n
  | .float x => jsonChars x
  | .str s => quoted s
  | .arr items => '[' :: compactItems items ++ [']']
  | .obj fields => '{' :: compactFields fields ++ ['}']

/-- The items of an array, parted by commas. -/
def compactItems : List Json → List Char
  | [] => []
  | [item] => compactChars item
  | item :: next :: rest => compactChars item ++ ',' :: compactItems (next :: rest)

/-- The fields of an object, parted by commas. -/
def compactFields : List (String × Json) → List Char
  | [] => []
  | [(key, value)] => quoted key ++ ':' :: compactChars value
  | (key, value) :: next :: rest =>
    quoted key ++ ':' :: compactChars value ++ ',' :: compactFields (next :: rest)

end

/-- The compact form as a string. -/
def compact (j : Json) : String :=
  String.ofList (compactChars j)

/-- A new line with `depth` indentation steps. -/
def newLine (depth : Nat) : List Char :=
  '\n' :: List.replicate (2 * depth) ' '

mutual

/-- The indented form of a value whose container stands at `depth`. -/
def indentedChars (depth : Nat) : Json → List Char
  | .null => ['n', 'u', 'l', 'l']
  | .bool true => ['t', 'r', 'u', 'e']
  | .bool false => ['f', 'a', 'l', 's', 'e']
  | .int n => intChars n
  | .float x => jsonChars x
  | .str s => quoted s
  | .arr [] => ['[', ']']
  | .arr (item :: rest) =>
    '[' :: newLine (depth + 1) ++ indentedItems (depth + 1) (item :: rest) ++ newLine depth
      ++ [']']
  | .obj [] => ['{', '}']
  | .obj (entry :: rest) =>
    '{' :: newLine (depth + 1) ++ indentedFields (depth + 1) (entry :: rest) ++ newLine depth
      ++ ['}']

/-- The items of an array, a line each. -/
def indentedItems (depth : Nat) : List Json → List Char
  | [] => []
  | [item] => indentedChars depth item
  | item :: next :: rest =>
    indentedChars depth item ++ ',' :: newLine depth ++ indentedItems depth (next :: rest)

/-- The fields of an object, a line each. -/
def indentedFields (depth : Nat) : List (String × Json) → List Char
  | [] => []
  | [(key, value)] => quoted key ++ ':' :: ' ' :: indentedChars depth value
  | (key, value) :: next :: rest =>
    quoted key ++ ':' :: ' ' :: indentedChars depth value ++ ',' :: newLine depth
      ++ indentedFields depth (next :: rest)

end

/-- The indented form as a string. -/
def indented (j : Json) : String :=
  String.ofList (indentedChars 0 j)

end MotifQuery.Json
