import QueryBook.Database.ClientError
import QueryBook.VersionTable

/-!
Rows that a database returns, and how they are read: cell by cell, a cell being found by the
position or by the name of its column.
-/

namespace QueryBook

structure Column where
  columnName : String
  type : PgType
  deriving DecidableEq, Repr

structure Row where
  columns : List Column
  cells : List Cell
  deriving DecidableEq, Repr

/-- A way to read rows. -/
abbrev RowReader (α : Type) := Row → Except ClientError α

namespace Row

variable {α : Type}

/-- A client takes only rows with a cell for every column. -/
def isWellFormed (row : Row) : Bool :=
  row.cells.length == row.columns.length

/-- The place of a column by its name. If no column has just this name, letters of ASCII are
compared without regard to case. -/
def indexOf? (row : Row) (columnName : String) : Option Nat :=
  match row.columns.findIdx? (·.columnName == columnName) with
  | some index => some index
  | none =>
    row.columns.findIdx? fun column =>
      column.columnName.toList.map Char.toLower == columnName.toList.map Char.toLower

/-- The place of a column that is in the row. -/
def find? (row : Row) : ColumnKey → Option Nat
  | .index i => if i < row.columns.length then some i else none
  | .named columnName => row.indexOf? columnName

/-- Reads the cell in one column. -/
def read (row : Row) (key : ColumnKey) (reader : CellReader α) : Except ClientError α :=
  match row.find? key with
  | none => .error (.noColumn key)
  | some i =>
    match row.columns[i]? with
    | none => .error (.noColumn key)
    | some column => (reader.read column.type (row.cells.getD i none)).mapError (.cell i)

end Row

namespace RowReader

variable {α : Type}

/-- Reads cells one after another; the first that cannot be read decides. -/
def ofKeys : List (ColumnKey × CellReader α) → RowReader (List α)
  | [], _ => .ok []
  | (key, reader) :: rest, row =>
    match row.read key reader with
    | .error e => .error e
    | .ok a =>
      match ofKeys rest row with
      | .error e => .error e
      | .ok values => .ok (a :: values)

/-- Reads the first cells of a row by position; further columns are left unread. -/
def positional (readers : List (CellReader α)) : RowReader (List α) :=
  ofKeys (readers.mapIdx fun i reader => (.index i, reader))

/-- Reads cells by the names of their columns. -/
def named (readers : List (String × CellReader α)) : RowReader (List α) :=
  ofKeys (readers.map fun (columnName, reader) => (.named columnName, reader))

/-- Reads the first cell alone. -/
def single (reader : CellReader α) : RowReader α :=
  fun row => row.read (.index 0) reader

end RowReader

/-- Reads a row of the version table. -/
def VersionRow.reader : RowReader VersionRow := fun row =>
  match row.read (.named "version") .int64 with
  | .error e => .error e
  | .ok version =>
    match row.read (.named "created_at") .instant with
    | .error e => .error e
    | .ok createdAt => .ok ⟨version, createdAt⟩

end QueryBook
