import IlSplice.Tables.Widths

/-!
The stream of metadata tables.

A header tells which tables are present and how many rows each has. The rows follow without gaps,
table by table, in the order of the tables' numbers.
-/

namespace IlSplice

/-- A stream of tables whose rows all lie inside its data. -/
structure TableStream where
  major : UInt8
  minor : UInt8
  heapSizes : UInt8
  /-- The mask of present tables. -/
  valid : UInt64
  /-- The mask of sorted tables. -/
  sorted : UInt64
  widths : Widths
  data : Bytes
  /-- The offset of the first row of each table, by number. -/
  offsets : Array Nat

namespace TableStream

/-- The name of the stream. -/
def streamName : String := "#~"

/-- The name of a stream of tables in a layout that is not supported. -/
def looseStreamName : String := "#-"

/-- The greatest number of rows that tokens can tell apart. -/
def maxRows : Nat := 0xFFFFFF

/-- Reads the number of rows of each present table. -/
def scanCounts : List TableId → Scan (List (TableId × Nat))
  | [] => return []
  | table :: rest => do
    let rows ← Scan.uint 4
    if maxRows < rows then throw (.tooManyRows table rows)
    else return (table, rows) :: (← scanCounts rest)

/-- Places tables one behind the other from `offset` on, as far as the data goes. -/
def place (w : Widths) (size : Nat) : List TableId → Nat → Array Nat → Except Fault (Array Nat)
  | [], _, offsets => .ok offsets
  | table :: rest, offset, offsets =>
    let stop := offset + w.rowSize table * w.rows table
    if stop ≤ size then place w size rest stop (offsets.push offset) else .error .outOfBounds

/-- Reads the header of the stream and places its tables. -/
def scan : Scan TableStream := do
  Scan.skip 4
  let major ← Scan.u8
  let minor ← Scan.u8
  let heapSizes ← Scan.u8
  Scan.skip 1
  let valid ← Scan.u64
  let sorted ← Scan.u64
  if valid.toNat >>> TableId.count ≠ 0 then throw (.unknownTables valid.toNat)
  else
    let counts ← scanCounts (TableId.all.filter fun table => valid.toNat.testBit table.number)
    let extra := if heapSizes.toNat.testBit 6 then 4 else 0
    let w := Widths.ofCounts counts heapSizes.toNat
    let data ← read
    let offsets ← Scan.check (place w data.size TableId.all ((← Scan.position) + extra) #[])
    return ⟨major, minor, heapSizes, valid, sorted, w, data, offsets⟩

/-- The stream with the given contents. -/
def ofBytes (data : Bytes) : Except Fault TableStream := Scan.evalAt scan data 0

/-- The number of rows of a table. -/
def rows (s : TableStream) (table : TableId) : Nat := s.widths.rows table

/-- The tables that are present. -/
def present (s : TableStream) : List TableId :=
  TableId.all.filter fun table => s.valid.toNat.testBit table.number

/-- The offset of a row; rows are counted from one. -/
def rowOffset (s : TableStream) (table : TableId) (row : Nat) : Except Fault Nat :=
  if row = 0 ∨ s.rows table < row then .error .outOfBounds
  else .ok (s.offsets.getD table.number 0 + (row - 1) * s.widths.rowSize table)

/-- The columns of a row. -/
def readRow (s : TableStream) (table : TableId) (row : Nat) : Except Fault (List Nat) := do
  let offset ← s.rowOffset table row
  Scan.evalAt (s.widths.scanColumns table.columns) s.data offset

end TableStream

end IlSplice
