import IlSplice.Text.Wrap

/-!
Tables of text in columns.

A column is as wide as its widest cell, as far as widths go, and two blanks stand between columns.
A cell with line breaks takes several lines, and so does one that is wider than its column.
-/

namespace IlSplice.Text

/-- The side of a column that its cells are moved to. -/
inductive Side where
  | left
  | right
  deriving DecidableEq, Repr

/-- A blank character of any script. -/
def isBlank (c : Char) : Bool :=
  let n := c.toNat
  9 ≤ n && n ≤ 13 || n = 0x20 || n = 0x85 || n = 0xA0 || n = 0x1680 || 0x2000 ≤ n && n ≤ 0x200A
    || n = 0x2028 || n = 0x2029 || n = 0x202F || n = 0x205F || n = 0x3000

/-- A line without the blanks at its end. -/
def trimmed (line : String) : String :=
  String.ofList (line.toList.reverse.dropWhile isBlank).reverse

/-- A line of a cell, filled up to the width of the column. -/
def filled (side : Side) (width : Nat) (line : String) : String :=
  let blanks := String.ofList (List.replicate (width - columns line) ' ')
  match side with
  | .left => line ++ blanks
  | .right => blanks ++ line

/-- The lines of a cell. -/
def cellLines (cell : String) : List String := cell.splitOn "\n"

/-- The width of a cell. -/
def cellWidth (cell : String) : Nat := ((cellLines cell).map columns).foldl max 0

/-- The greatest width of a column. -/
def maxWidth : Nat := 0xffff

/-- The widths of columns that have room for a row. -/
def widen (widths : List Nat) (row : List String) : List Nat :=
  List.zipWith max widths (row.map fun cell => min (cellWidth cell) maxWidth)

/-- The lines of a row. -/
def rowLines (sides : List Side) (widths : List Nat) (row : List String) : List String :=
  let cells := List.zipWith (fun width cell => (cellLines cell).flatMap (wrapped width)) widths row
  let height := (cells.map (·.length)).foldl max 0
  (List.range height).map fun i =>
    trimmed ("  ".intercalate ((sides.zip (widths.zip cells)).map fun (side, width, lines) =>
      filled side width (lines.getD i "")))

/-- The lines of a table, whose first row is its head. -/
def grid (sides : List Side) (rows : List (List String)) : List String :=
  let widths := rows.foldl widen (sides.map fun _ => 0)
  rows.flatMap (rowLines sides widths)

end IlSplice.Text
