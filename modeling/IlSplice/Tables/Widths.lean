import IlSplice.Bytes.Scan
import IlSplice.Tables.Schema

/-!
The sizes of table columns.

An index into a heap or a table takes two or four bytes, depending on how large the heap or the
table is. A coded index takes two bytes if the rows of all its tables fit beside the tag.
-/

namespace IlSplice

/-- What the sizes of columns depend on. -/
structure Widths where
  /-- The number of rows of each table, by number; nothing for a table that is not listed. -/
  counts : Array (Option Nat)
  wideNames : Bool
  wideGuids : Bool
  wideBlobs : Bool

/-- A reference to a row of one of several tables. -/
structure CodedIndex where
  table : TableId
  row : Nat
  deriving DecidableEq, Repr

/-- The token of the row, with as many of its bits as fit. -/
def CodedIndex.token (c : CodedIndex) : Token := Token.ofParts c.table.number c.row

/-- Splits a coded index into tag and row. -/
def CodedKind.decode (kind : CodedKind) (value : Nat) : Except Fault CodedIndex :=
  let tag := value % (1 <<< kind.tagBits)
  match kind.tables[tag]? with
  | some table => .ok ⟨table, value >>> kind.tagBits⟩
  | none => .error (.badTag tag kind)

namespace Widths

/-- The widths for the listed tables and a byte of heap flags. A table that is listed twice has
the later number of rows. -/
def ofCounts (counts : List (TableId × Nat)) (heapSizes : Nat) : Widths where
  counts := counts.foldl (fun counts (table, rows) =>
    counts.setIfInBounds table.number (some rows)) (Array.replicate TableId.count none)
  wideNames := heapSizes.testBit 0
  wideGuids := heapSizes.testBit 1
  wideBlobs := heapSizes.testBit 2

/-- The number of rows of a table, if it is listed. -/
def rows? (w : Widths) (table : TableId) : Option Nat := w.counts[table.number]?.join

/-- The number of rows of a table. -/
def rows (w : Widths) (table : TableId) : Nat := (w.rows? table).getD 0

/-- The bits of a table's greatest row number; at least one for a table that is listed. -/
def rowBits (w : Widths) (table : TableId) : Nat :=
  match w.rows? table with
  | none => 0
  | some rows => Nat.log2 rows + 1

/-- A row of the table takes four bytes. -/
def isLarge (w : Widths) (table : TableId) : Bool := 0xFFFF < w.rows table

/-- The bits of a coded index. -/
def codedBits (w : Widths) (kind : CodedKind) : Nat :=
  (kind.tables.map w.rowBits).foldl max 0 + kind.tagBits

/-- The bytes of an index. -/
def indexSize (wide : Bool) : Nat := if wide then 4 else 2

/-- The bytes of a column. -/
def columnSize (w : Widths) : Column → Nat
  | .fixed width => width.bytes
  | .name => indexSize w.wideNames
  | .guid => indexSize w.wideGuids
  | .blob => indexSize w.wideBlobs
  | .row table => indexSize (w.isLarge table)
  | .coded kind => indexSize (16 < w.codedBits kind)

/-- The bytes of columns together. -/
def totalSize (w : Widths) : List Column → Nat
  | [] => 0
  | column :: rest => w.columnSize column + w.totalSize rest

/-- The bytes of a row. -/
def rowSize (w : Widths) (table : TableId) : Nat := w.totalSize table.columns

/-- The bytes in front of a column of a row. -/
def columnOffset (w : Widths) (table : TableId) (column : Nat) : Nat :=
  w.totalSize (table.columns.take column)

/-- Reads a column. -/
def scanColumn (w : Widths) (column : Column) : Scan Nat := Scan.uint (w.columnSize column)

/-- Reads columns one behind the other. -/
def scanColumns (w : Widths) : List Column → Scan (List Nat)
  | [] => return []
  | column :: rest => do
    let value ← w.scanColumn column
    return value :: (← scanColumns w rest)

end Widths

end IlSplice
