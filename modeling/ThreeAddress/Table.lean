import ThreeAddress.Text

/-!
# Tables of text

A table has columns of fixed width between bars, with a border above the header, below it and at the end.  A cell
stands after one blank and is never cut, so a cell that is too long moves the rest of its row to the right.  Cells
beyond the last column are left out, and a short row ends early.
-/

namespace ThreeAddress

/-- A column: its header and the number of dashes of its border. -/
structure Column where
  header : String
  width : Nat
deriving DecidableEq, Repr

/-- A table of text cells. -/
structure Table where
  columns : List Column
  rows : List (List String)
deriving DecidableEq, Repr

/-- A border line. -/
def Table.border (columns : List Column) : String :=
  "+" ++ String.join (columns.map fun column => String.ofList (List.replicate column.width '-') ++ "+")

/-- A line of cells. -/
def Table.line (columns : List Column) (cells : List String) : String :=
  String.join (List.zipWith (fun cell column => "| " ++ padRight (column.width - 1) cell) cells columns) ++ "|"

/-- The lines of a table from top to bottom. -/
def Table.lines (table : Table) : List String :=
  let border := Table.border table.columns
  [border, Table.line table.columns (table.columns.map Column.header), border] ++
    table.rows.map (Table.line table.columns) ++ [border]

/-- The text of a table, with an end of line after each line. -/
def Table.render (table : Table) : String := String.join (table.lines.map (· ++ "\n"))

end ThreeAddress
