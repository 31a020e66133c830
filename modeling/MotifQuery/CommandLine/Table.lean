import MotifQuery.Text.Split
import MotifQuery.Text.Width

/-!
# `MotifQuery.CommandLine.Table`: tables of text

A table has a frame of signs, a line of double strokes below its header, and a line of
strokes between rows. Every column is as wide as its widest line, with a blank on either
side; a cell may have several lines.
-/

set_option autoImplicit false

namespace MotifQuery

open Text

/-- A table of text cells. -/
structure Table where
  header : List String
  rows : List (List String)
deriving DecidableEq

namespace Table

/-- The lines of a cell. -/
def cellLines (cell : String) : List (List Char) :=
  pieces '\n' cell.toList

/-- The columns that a cell takes. -/
def cellWidth (cell : String) : Nat :=
  ((cellLines cell).map width).foldl max 0

/-- The widths of the columns. -/
def widths (t : Table) : List Nat :=
  t.rows.foldl (fun ws row => List.zipWith max ws (row.map cellWidth)) (t.header.map cellWidth)

/-- A text with blanks up to a width. -/
def padTo (w : Nat) (cs : List Char) : List Char :=
  cs ++ List.replicate (w - width cs) ' '

/-- Pieces of the columns between an opening, inner signs and a closing. -/
def framed (opening inner closing : Char) (columns : List (List Char)) : List Char :=
  opening :: [inner].intercalate columns ++ [closing]

/-- A line of strokes. -/
def rule (opening stroke inner closing : Char) (ws : List Nat) : List Char :=
  framed opening inner closing (ws.map fun w => List.replicate (w + 2) stroke)

/-- A line of a cell in its column; a cell without that line is blank there. -/
def cellLine (i w : Nat) (cell : List (List Char)) : List Char :=
  ' ' :: padTo w (cell[i]?.getD []) ++ [' ']

/-- The lines of a row, as many as its tallest cell has. -/
def rowLines (ws : List Nat) (row : List String) : List (List Char) :=
  let cells := row.map cellLines
  let height := (cells.map List.length).foldl max 0
  (List.range height).map fun i => framed '|' '|' '|' (List.zipWith (cellLine i) ws cells)

/-- The lines of a table. -/
def lines (t : Table) : List (List Char) :=
  let ws := t.widths
  rule '+' '-' '+' '+' ws :: rowLines ws t.header ++ [rule '+' '=' '=' '+' ws]
    ++ [rule '|' '-' '+' '|' ws].intercalate (t.rows.map (rowLines ws))
    ++ [rule '+' '-' '+' '+' ws]

/-- A table as a text. -/
def text (t : Table) : String :=
  String.ofList (['\n'].intercalate t.lines)

end Table

end MotifQuery
