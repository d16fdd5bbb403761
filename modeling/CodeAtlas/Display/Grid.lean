import CodeAtlas.Text.Basic
import CodeAtlas.Text.Width
/-!
# Grids

Rows of cells in a frame with round corners, the first row set off as a header. Columns are as wide as their widest line; short
rows are filled with empty cells, and a cell of several lines makes its row as high.
-/

namespace CodeAtlas

open CodeAtlas.Text

/-- A header and rows of cells. -/
structure Grid where
  header : List String
  rows : List (List String)
deriving Repr, DecidableEq, Inhabited

namespace Grid

/-- The lines of a cell. -/
def cellLines (cell : String) : List (List Char) := splitOn '\n' cell.toList

/-- The columns that a cell takes. -/
def cellWidth (cell : String) : Nat := ((cellLines cell).map width).foldl max 0

/-- A row filled with empty cells. -/
def padRow (columns : Nat) (row : List String) : List String := row ++ List.replicate (columns - row.length) ""

/-- All rows, of equal length. -/
def records (g : Grid) : List (List String) :=
  let all := g.header :: g.rows
  let columns := (all.map List.length).foldl max 0
  all.map (padRow columns)

/-- The widths of the columns of rows of equal length. -/
def widths : List (List String) → List Nat
  | [] => []
  | [row] => row.map cellWidth
  | row :: rest => List.zipWith max (row.map cellWidth) (widths rest)

/-- A line filled with blanks up to a width, between two blanks. -/
def padLine (columns : Nat) (line : List Char) : List Char :=
  ' ' :: line ++ List.replicate (columns - width line) ' ' ++ [' ']

/-- A border: a line for each column, between marks. -/
def border (left middle right : Char) (columns : List Nat) : List Char :=
  left :: joinWith [middle] (columns.map fun w => List.replicate (w + 2) '─') ++ [right]

/-- The line of a row with a given number, counted from zero. -/
def rowLine (columns : List Nat) (row : List String) (number : Nat) : List Char :=
  let parts := List.zipWith (fun w cell => padLine w (((cellLines cell)[number]?).getD [])) columns row
  '│' :: joinWith ['│'] parts ++ ['│']

/-- The lines of a row. -/
def rowLines (columns : List Nat) (row : List String) : List (List Char) :=
  let height := (row.map fun cell => (cellLines cell).length).foldl max 1
  (List.range height).map (rowLine columns row)

/-- The grid as lines; a grid without columns has none. -/
def lines (g : Grid) : List (List Char) :=
  let records := g.records
  let columns := widths records
  match records with
  | [] => []
  | header :: rows =>
    if columns.isEmpty then []
    else
      border '╭' '┬' '╮' columns :: rowLines columns header ++ border '├' '┼' '┤' columns ::
        rows.flatMap (rowLines columns) ++ [border '╰' '┴' '╯' columns]

/-- The grid as text. Without rows there is nothing to show. -/
def render (g : Grid) : String :=
  if g.rows.isEmpty then "" else String.ofList (joinWith ['\n'] g.lines)

end Grid

end CodeAtlas
