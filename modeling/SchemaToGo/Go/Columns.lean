import SchemaToGo.Text.Blank
set_option autoImplicit false

/-!
# Columns

Rows of cells are laid out in columns.  Every cell of a row but the last belongs to a column.  The
cells that consecutive rows have in one column form a block, which is as wide as its longest cell
and one space more, or takes no space if all its cells are empty.  Every cell but a row's last is
padded to the width of its block.

Normative source: SPEC_FULL.md section 4.4, on the alignment of struct fields: a cell is as wide as
the widest one and one more, and columns that are empty in a whole block are discarded.
-/

namespace SchemaToGo.Go

/-- The cells of a line. -/
abbrev Row := List (List Char)

/-- The row has a cell in the column: one that is not its last. -/
def Row.hasColumn (column : Nat) (row : Row) : Bool := column + 1 < row.length

/-- The width of a block of rows in a column. -/
def blockWidth (column : Nat) (rows : List Row) : Nat :=
  match (rows.map fun row => (row.getD column []).length).foldr max 0 with
  | 0 => 0
  | n + 1 => n + 2

/-- For every row the width of its block in the column, or zero if it has none. -/
def columnWidths (column : Nat) (rows : List Row) : List Nat :=
  match rows with
  | [] => []
  | row :: rest =>
    if row.hasColumn column then
      let block := row :: rest.takeWhile (Row.hasColumn column)
      List.replicate block.length (blockWidth column block) ++
        columnWidths column (rest.dropWhile (Row.hasColumn column))
    else 0 :: columnWidths column rest
termination_by rows.length
decreasing_by
  · simp only [List.length_cons]
    exact Nat.lt_succ_of_le (List.dropWhile_sublist _).length_le
  · simp

/-- A cell filled up with spaces. -/
def pad (width : Nat) (cell : List Char) : List Char :=
  cell ++ List.replicate (width - cell.length) ' '

/-- The text of a row whose columns have the given widths. -/
def rowText : List Nat → Row → List Char
  | width :: widths, cell :: next :: cells =>
    pad width cell ++ rowText widths (next :: cells)
  | _, row => row.flatten

/-- The number of columns of the widest row. -/
def columnCount (rows : List Row) : Nat :=
  (rows.map fun row => row.length - 1).foldr max 0

/-- For every row the widths of its columns. -/
def rowWidths (rows : List Row) : List (List Nat) :=
  (List.range (columnCount rows)).foldr
    (fun column widths => List.zipWith List.cons (columnWidths column rows) widths)
    (rows.map fun _ => [])

/-- The lines of a table, without blanks at their ends. -/
def align (rows : List Row) : List (List Char) :=
  List.zipWith (fun widths row => Text.trimEnd (rowText widths row)) (rowWidths rows) rows

end SchemaToGo.Go
