import MotifQuery.Text.Blank

/-!
# `MotifQuery.Text.Split`: cutting texts

Cutting at the first or the last occurrence of a separator, cutting at every
occurrence of a character, and cutting into lines. A line ends at a line feed; one
carriage return directly before the line feed belongs to the line end, and a line feed
at the very end of the text opens no further line.
-/

set_option autoImplicit false

namespace MotifQuery.Text

/-- What stands before and after the first occurrence of `sep`. -/
def splitOnce? (sep : List Char) : List Char → Option (List Char × List Char)
  | [] => if sep.isEmpty then some ([], []) else none
  | c :: cs =>
    match sep.isPrefixOf? (c :: cs) with
    | some rest => some ([], rest)
    | none => (splitOnce? sep cs).map fun parts => (c :: parts.1, parts.2)

/-- What stands before and after the last occurrence of the character `sep`. -/
def splitLast? (sep : Char) : List Char → Option (List Char × List Char)
  | [] => none
  | c :: cs =>
    match splitLast? sep cs with
    | some parts => some (c :: parts.1, parts.2)
    | none => if c = sep then some ([], cs) else none

/-- The pieces between the occurrences of `sep`; there is always at least one. -/
def pieces (sep : Char) : List Char → List (List Char)
  | [] => [[]]
  | c :: cs =>
    if c = sep then [] :: pieces sep cs
    else
      match pieces sep cs with
      | [] => [[c]]
      | piece :: rest => (c :: piece) :: rest

/-- The text without `ending`, when it ends so. -/
def dropEnding? (ending cs : List Char) : Option (List Char) :=
  (ending.reverse.isPrefixOf? cs.reverse).map List.reverse

/-- The text without one carriage return at its end. -/
def dropReturn (cs : List Char) : List Char :=
  (dropEnding? ['\r'] cs).getD cs

/-- The lines among pieces cut at line feeds: the last piece ended at no line feed, so it
keeps its carriage return, and it is no line when it is empty. -/
def linesOfPieces : List (List Char) → List (List Char)
  | [] => []
  | [last] => if last.isEmpty then [] else [last]
  | piece :: next :: rest => dropReturn piece :: linesOfPieces (next :: rest)

/-- The lines of a text. -/
def lines (cs : List Char) : List (List Char) :=
  linesOfPieces (pieces '\n' cs)

/-- Does the string begin with `start`? -/
def startsWith (s start : String) : Bool :=
  start.toList.isPrefixOf s.toList

/-- Does the string end with `ending`? -/
def endsWith (s ending : String) : Bool :=
  ending.toList.isSuffixOf s.toList

/-- The rest of the string after `start`, when it begins so. -/
def after? (start s : String) : Option String :=
  (start.toList.isPrefixOf? s.toList).map String.ofList

/-- Replaces every occurrence of a character by a text. -/
def replaceChar (c : Char) (text cs : List Char) : List Char :=
  cs.flatMap fun d => if d = c then text else [d]

end MotifQuery.Text
