import EntryRef.Text.Blank
import EntryRef.Text.Lines
import EntryRef.Text.Terminal

/-!
# Tables

A `Table` is shown in columns of even width, two spaces apart, with lines of dashes: one below the
heads, or one above and one below the rows where there are no heads. Cells lose the white space at
their ends, and lines lose the white space behind them.

* A cell may have several lines, if some cell of the table is written with a carriage return or a
  line feed (`Style.multiline`).
* A terminal's sequences take no room, if some cell of the table holds one (`Style.sequences`).
* A row that starts with the cell `ruleMark`, or has it second, is a line of dashes.

`Table.toText` writes the table.

The table is one of the package `tabulate`, in its style `simple`. What is proved about it rests on
the following of that package. A column is one of numbers only if all its cells are, and here each
column has a cell that is the text of a reference or the name of a part of one. A column is as wide
as its widest line, and as its head with two more characters (`headRoom`). A cell is stripped before
it is measured. Where any cell of the table, head or row, has several lines or a sequence of a
terminal, all of them are laid out as if they might (`Style.ofCells`). White space at the end of a
line is dropped, so that the last column is not padded.
-/

namespace EntryRef

open Text

/-- A table. -/
structure Table where
  /-- The heads of the columns, or nothing where they have none. -/
  heads : List Text
  /-- The cells of each row. -/
  rows : List (List Text)

namespace Table

/-! ### Cells -/

/-- How the cells of a table are laid out. -/
structure Style where
  /-- May cells have several lines? -/
  multiline : Bool
  /-- Are there sequences that take no room? -/
  sequences : Bool

/-- The style for a table with the given cells. -/
def Style.ofCells (cells : List Text) : Style :=
  let all := joined "\t" cells
  ⟨all.any isReturn, hasSequence all⟩

/-- The room that a text takes. -/
def width (s : Text) : Nat := (visible s).length

/-- The characters of a text that take no room, as a number to add to a width. -/
def hidden (s : Text) : Nat := s.length - width s

/-- A text with spaces behind it, up to a number of characters. -/
def padded (n : Nat) (s : Text) : Text := s ++ List.replicate (n - s.length) ' '

namespace Style

variable (style : Style)

/-- The parts of a cell that have a width each. -/
def parts (cell : Text) : List Text := if style.multiline then Text.rows cell else [cell]

/-- The room that a cell takes. -/
def room (cell : Text) : Nat := ((style.parts cell).map width).foldl max 0

/-- The lines of a cell, padded to a width. With sequences among several lines, each line takes the
padding that the part at its place needs. -/
def cellLines (n : Nat) (cell : Text) : List Text :=
  if style.multiline then
    if style.sequences then
      List.zipWith (fun line part => padded (n + hidden part) line) (lines cell) (style.parts cell)
    else (lines cell).map (padded n)
  else [padded (n + hidden cell) cell]

end Style

/-! ### Columns -/

/-- The cells of a column, padded, and the room that they take. -/
structure Column where
  cells : List (List Text)
  width : Nat

/-- The room that the head of a column takes. -/
def headRoom (head : Text) : Nat := Table.width head + 2

/-- A column of cells. Its width is that of the widest line, and at least `least`. -/
def Column.ofCells (style : Style) (least : Nat) (cells : List Text) : Column :=
  let n := (cells.map style.room).foldl max least
  let cells := cells.map (style.cellLines n)
  ⟨cells, (cells.flatten.map Table.width).foldl max least⟩

/-! ### Lines -/

/-- A line of the table: cells two spaces apart, without white space at the end. -/
def line (cells : List Text) : Text := dropTrailing isBlank (joined "  " cells)

/-- A line of dashes. -/
def rule (columns : List Column) : Text :=
  line (columns.map fun c => List.replicate c.width '-')

/-- A line of a row, from the lines of its cells. A cell without this line is blank. -/
def rowLine (columns : List Column) (cells : List (List Text)) (i : Nat) : Text :=
  line (List.zipWith (fun c ls => ls[i]?.getD (List.replicate c.width ' ')) columns cells)

/-- The lines of a row, from the lines of its cells. -/
def rowLines (columns : List Column) (cells : List (List Text)) : List Text :=
  (List.range ((cells.map List.length).foldl max 0)).map (rowLine columns cells)

/-- The cell that makes a row a line of dashes. -/
def ruleMark : Text := ['\x01']

/-- Is the row a line of dashes? -/
def isRule (row : List Text) : Bool := row[0]? == some ruleMark || row[1]? == some ruleMark

/-- The lines of the rows, which take the cells that are left of each column. -/
def bodyLines (columns : List Column) : List (List (List Text)) → List (List Text) → List Text
  | _, [] => []
  | left, row :: rows =>
    if isRule row then rule columns :: bodyLines columns left rows
    else rowLines columns (left.map fun cells => cells.headD []) ++
      bodyLines columns (left.map List.tail) rows

/-! ### Tables -/

variable (t : Table)

/-- The rows that are not lines of dashes. -/
def cellRows : List (List Text) := t.rows.filter fun row => !isRule row

/-- The style of the table. -/
def style : Style := .ofCells (t.heads ++ t.cellRows.flatten)

/-- The number of columns. -/
def columnCount : Nat := (t.cellRows.map List.length).foldl max t.heads.length

/-- The columns of the table. -/
def columns : List Column :=
  (List.range t.columnCount).map fun i =>
    Column.ofCells t.style ((t.heads[i]?.map headRoom).getD 0)
      (t.cellRows.map fun row => strip isBlank (row[i]?.getD []))

/-- The lines of the table. -/
def toLines : List Text :=
  let columns := t.columns
  let body := bodyLines columns (columns.map (·.cells)) t.rows
  if t.heads.isEmpty then
    if t.rows.isEmpty then [] else rule columns :: body ++ [rule columns]
  else line (List.zipWith (fun c h => padded (c.width + hidden h) h) columns t.heads) ::
    rule columns :: body

/-- The table as a text. -/
def toText : Text := joined "\n" t.toLines

end Table

end EntryRef
