import IlSplice.Proofs.Machine.Reading
import IlSplice.Proofs.Tables.Coded

/-! The sizes of rows in words. They are worked out once for all tables and kept in fields that
are looked up by the numbers of tables and of families of coded indexes. -/

namespace IlSplice

open Machine Reading

/-- What is kept of a table; of a table that is not present nothing is known. -/
structure RowInfo where
  rows : Nat := 0
  bits : Nat := 0
  isLarge : Bool := false

/-- What is kept of all tables, and the bits of each family of coded indexes. -/
structure TableInfo where
  rows : Array RowInfo
  coded : Array Nat
  wideNames : Bool
  wideGuids : Bool
  wideBlobs : Bool

/-- What is kept of a table with so many rows. -/
def RowInfo.ofRows (rows : Nat) : Machine RowInfo := do
  let bits ← if rows = 0 then .ok 1 else sub 32 (leadingZeros 32 rows)
  return ⟨rows, ← fit 8 bits, 0xFFFF < rows⟩

namespace CodedKind

/-- The position of the family among all families. -/
def number (kind : CodedKind) : Nat := kind.ctorIdx

/-- The bits that tell the tables of the family apart. -/
def tagWord (kind : CodedKind) : Machine Nat := do
  let last ← sub kind.tables.length 1
  fit 8 (← sub 64 (leadingZeros 64 last))

/-- Splits a coded index into tag and row, and checks that the table has a token. -/
def decodeWord (kind : CodedKind) (value : Nat) : Machine CodedIndex := do
  let bits ← kind.tagWord
  let mask ← sub (← shiftLeft 32 1 bits) 1
  let row ← shiftRight 32 value bits
  match kind.tables[value &&& mask]? with
  | some table =>
    let _ ← shiftLeft 32 table.number 24
    return ⟨table, row⟩
  | none => fail (.badTag (value &&& mask) kind)

end CodedKind

namespace TableInfo

/-- Keeps the numbers of rows of tables. -/
def storeRows : List (TableId × Nat) → Array RowInfo → Machine (Array RowInfo)
  | [], infos => .ok infos
  | (table, rows) :: rest, infos => do
    let info ← RowInfo.ofRows rows
    let infos ← store infos table.number info
    storeRows rest infos

/-- The bits of a family of coded indexes. -/
def codedBits (infos : Array RowInfo) (kind : CodedKind) : Machine Nat := do
  let bits ← kind.tables.mapM fun table => do
    let info ← present infos[table.number]?
    return info.bits
  fit 8 (bits.foldl max 0 + (← kind.tagWord))

/-- Keeps the bits of families of coded indexes. -/
def storeCoded (infos : Array RowInfo) : List CodedKind → Array Nat → Machine (Array Nat)
  | [], coded => .ok coded
  | kind :: rest, coded => do
    let bits ← codedBits infos kind
    let coded ← store coded kind.number bits
    storeCoded infos rest coded

/-- What is kept for the listed tables and a byte of heap flags. -/
def ofCounts (counts : List (TableId × Nat)) (heapSizes : Nat) : Machine TableInfo := do
  let infos ← storeRows counts (Array.replicate TableId.count {})
  let coded ← storeCoded infos CodedKind.all (Array.replicate CodedKind.all.length 0)
  return ⟨infos, coded, heapSizes.testBit 0, heapSizes.testBit 1, heapSizes.testBit 2⟩

/-- The number of rows of a table. -/
def rowCount (info : TableInfo) (table : TableId) : Machine Nat := do
  let row ← present info.rows[table.number]?
  return row.rows

/-- The bytes of a column. -/
def columnSize (info : TableInfo) : Column → Machine Nat
  | .fixed width => .ok width.bytes
  | .name => .ok (Widths.indexSize info.wideNames)
  | .guid => .ok (Widths.indexSize info.wideGuids)
  | .blob => .ok (Widths.indexSize info.wideBlobs)
  | .row table => do
    let row ← present info.rows[table.number]?
    return Widths.indexSize row.isLarge
  | .coded kind => do
    let bits ← present info.coded[kind.number]?
    return Widths.indexSize (16 < bits)

/-- The bytes of columns together with those before them. -/
def totalSize (info : TableInfo) : List Column → Nat → Machine Nat
  | [], sum => .ok sum
  | column :: rest, sum => do
    let size ← info.columnSize column
    totalSize info rest (← fit 64 (sum + size))

/-- The bytes of a row. -/
def rowSize (info : TableInfo) (table : TableId) : Machine Nat := info.totalSize table.columns 0

/-- Reads a column. -/
def readColumn (info : TableInfo) : Column → Reading Nat
  | .fixed width => uint width.bytes
  | column => do
    let size ← compute (info.columnSize column)
    uint (if size = 4 then 4 else 2)

/-- Reads columns one behind the other. -/
def readColumns (info : TableInfo) : List Column → Reading (List Nat)
  | [] => return []
  | column :: rest => do
    let value ← info.readColumn column
    return value :: (← readColumns info rest)

end TableInfo

/-- The bits of a number are counted by its leading zeros. Nothing is taken from less. -/
theorem leadingZeros_sub {bits n : Nat} (hn : n ≠ 0) (hRange : n < 2 ^ bits) :
    sub bits (leadingZeros bits n) = .ok (Nat.log2 n + 1) := by
  have hLog := (Nat.log2_lt hn).2 hRange
  rw [leadingZeros, if_neg hn, sub_of_le (by omega)]
  congr 1
  omega

namespace CodedKind

/-- A family has at least two tables, and so its last one has a number with a highest bit. -/
theorem tagWord_eq (kind : CodedKind) : kind.tagWord = .ok kind.tagBits := by
  have hLength := kind.two_le_length
  have hTag := kind.tagBits_le
  unfold tagBits at hTag
  rw [tagWord, sub_of_le (by omega), ok_bind, leadingZeros_sub (by omega) (by omega), ok_bind,
    fit_of_lt (by omega)]
  rfl

/-- The tag of a coded index and its row are taken from the number by shifts that are shorter than a
word. -/
theorem decodeWord_eq (kind : CodedKind) (value : Nat) :
    kind.decodeWord value = ofChecked (kind.decode value) := by
  have hTag := kind.tagBits_le
  have hMask : (1 <<< kind.tagBits) ≤ 2 ^ 5 := by
    rw [Nat.one_shiftLeft]
    exact Nat.pow_le_pow_right (by decide) hTag
  have hPos : 1 ≤ 1 <<< kind.tagBits := by
    rw [Nat.one_shiftLeft]
    exact Nat.one_le_two_pow
  rw [decodeWord, tagWord_eq, ok_bind, shiftLeft_of_lt (by omega) (by omega), ok_bind,
    sub_of_le hPos, ok_bind, shiftRight_of_lt (by omega), ok_bind, decode, Nat.one_shiftLeft,
    Nat.and_two_pow_sub_one_eq_mod]
  cases kind.tables[value % 2 ^ kind.tagBits]? with
  | none => rfl
  | some table =>
      have hNumber : table.number <<< 24 < 2 ^ 32 := by cases table <;> decide
      dsimp only
      rw [shiftLeft_of_lt (by decide) hNumber]
      rfl

end CodedKind

namespace Widths

variable {w : Widths}

/-- Sizes as they come from the header of a stream of tables. -/
structure Sound (w : Widths) : Prop where
  size_eq : w.counts.size = TableId.count
  rows_le : ∀ t, w.rows t ≤ TableStream.maxRows

/-- What is kept of a table, if it is listed. -/
def infoOf : Option Nat → RowInfo
  | none => {}
  | some rows => ⟨rows, Nat.log2 rows + 1, 0xFFFF < rows⟩

/-- What is kept of all tables. -/
def info (w : Widths) : TableInfo :=
  ⟨w.counts.map infoOf, (CodedKind.all.map w.codedBits).toArray, w.wideNames, w.wideGuids,
    w.wideBlobs⟩

/-- What is kept of a table that is present. Its number of rows fits 24 bits, and so the bits of it
fit a byte. -/
theorem ofRows_eq {rows : Nat} (h : rows ≤ TableStream.maxRows) :
    RowInfo.ofRows rows = .ok (infoOf (some rows)) := by
  unfold TableStream.maxRows at h
  by_cases hZero : rows = 0
  · subst hZero
    rfl
  · have hLog := (Nat.log2_lt hZero).2 (show rows < 2 ^ 32 by omega)
    rw [RowInfo.ofRows, if_neg hZero, leadingZeros_sub hZero (by omega), ok_bind]
    dsimp only
    rw [fit_of_lt (by omega)]
    rfl

/-- By induction on the tables, each of which has a field. -/
theorem storeRows_eq {counts : List (TableId × Nat)}
    (hRows : ∀ c ∈ counts, c.2 ≤ TableStream.maxRows) {found : Array (Option Nat)}
    (hSize : found.size = TableId.count) :
    TableInfo.storeRows counts (found.map infoOf) = .ok ((counts.foldl
      (fun found c => found.setIfInBounds c.1.number (some c.2)) found).map infoOf) := by
  induction counts generalizing found with
  | nil => rfl
  | cons c rest ih =>
      rw [List.forall_mem_cons] at hRows
      have hNumber := c.1.number_lt
      rw [TableInfo.storeRows, ofRows_eq hRows.1, ok_bind, store_of_lt (by simpa [hSize]), ok_bind,
        ← Array.map_setIfInBounds, ih hRows.2 (by simpa using hSize)]
      rfl

theorem size_foldl_counts (counts : List (TableId × Nat)) (found : Array (Option Nat)) :
    (counts.foldl (fun found c => found.setIfInBounds c.1.number (some c.2)) found).size
      = found.size := by
  induction counts generalizing found with
  | nil => rfl
  | cons c rest ih => rw [List.foldl_cons, ih, Array.size_setIfInBounds]

/-- Numbers of rows that are small are small wherever they are stored. -/
theorem sound_ofCounts {counts : List (TableId × Nat)}
    (hRows : ∀ c ∈ counts, c.2 ≤ TableStream.maxRows) (heapSizes : Nat) :
    (ofCounts counts heapSizes).Sound where
  size_eq := (size_foldl_counts counts _).trans (Array.size_replicate ..)
  rows_le := rows_ofCounts_le hRows heapSizes

variable (hSound : w.Sound)

include hSound

/-- Every table has a field, and what is kept of it is worked out from its number of rows. -/
theorem Sound.get (t : TableId) :
    (w.counts.map infoOf)[t.number]? = some (infoOf (w.rows? t)) := by
  have hInside : t.number < w.counts.size := hSound.size_eq ▸ t.number_lt
  rw [Array.getElem?_map, rows?, Array.getElem?_eq_getElem hInside]
  rfl

/-- A row is told by at most 24 bits. -/
theorem Sound.rowBits_le (t : TableId) : w.rowBits t ≤ 24 := by
  rw [rowBits_le_iff (by decide)]
  exact Nat.lt_succ_of_le (hSound.rows_le t)

/-- The bits of a family are those of its largest table and those of its tag. They fit a byte. -/
theorem Sound.codedBits_eq (kind : CodedKind) :
    TableInfo.codedBits (w.counts.map infoOf) kind = .ok (w.codedBits kind) := by
  have hEach : ∀ t ∈ kind.tables, (do
      let info ← present (w.counts.map infoOf)[t.number]?
      return info.bits : Machine Nat) = .ok (w.rowBits t) := by
    intro t _
    rw [hSound.get]
    unfold rowBits
    cases w.rows? t <;> rfl
  have hBits : (kind.tables.map w.rowBits).foldl max 0 ≤ 24 :=
    foldl_max_le_iff.2 ⟨Nat.zero_le _, List.forall_mem_map.2 fun t _ => hSound.rowBits_le t⟩
  have hTag := kind.tagBits_le
  rw [TableInfo.codedBits, mapM_of_ok hEach, ok_bind, CodedKind.tagWord_eq, ok_bind,
    fit_of_lt (by omega)]
  rfl

/-- By induction on the families, whose numbers are in order. -/
theorem Sound.storeCoded_eq {kinds : List CodedKind} {found : Array Nat}
    (hOrder : kinds.map CodedKind.number = List.range' found.size kinds.length) :
    TableInfo.storeCoded (w.counts.map infoOf) kinds (found ++ Array.replicate kinds.length 0)
      = .ok (found ++ (kinds.map w.codedBits).toArray) := by
  induction kinds generalizing found with
  | nil => simp [TableInfo.storeCoded]
  | cons kind rest ih =>
      rw [List.map_cons, List.length_cons, List.range'_succ, List.cons.injEq] at hOrder
      rw [TableInfo.storeCoded, hSound.codedBits_eq, ok_bind, hOrder.1, List.length_cons,
        store_front, ok_bind, ih (by rw [Array.size_push]; exact hOrder.2)]
      simp

theorem Sound.rowCount_eq (t : TableId) : w.info.rowCount t = .ok (w.rows t) := by
  rw [TableInfo.rowCount, info, hSound.get, rows]
  cases w.rows? t <;> rfl

/-- The size of a column is looked up and not worked out again. -/
theorem Sound.columnSize_eq (column : Column) :
    w.info.columnSize column = .ok (w.columnSize column) := by
  cases column with
  | fixed | name | guid | blob => rfl
  | row t =>
      rw [TableInfo.columnSize, info, hSound.get, columnSize, isLarge, rows]
      cases w.rows? t <;> rfl
  | coded kind =>
      have hCoded : (CodedKind.all.map w.codedBits).toArray[kind.number]?
          = some (w.codedBits kind) := by
        cases kind <;> rfl
      rw [TableInfo.columnSize, info, hCoded]
      rfl

omit hSound in
theorem columnSize_le (column : Column) : w.columnSize column ≤ 4 := by
  have hIndex : ∀ wide, indexSize wide ≤ 4 := by decide
  cases column with
  | fixed width =>
      have hFixed : ∀ width : FixedWidth, width.bytes ≤ 4 := by rintro (_ | _ | _) <;> decide
      exact hFixed width
  | name | guid | blob | row | coded => exact hIndex _

/-- By induction on the columns. The bound leaves room for all of them. -/
theorem Sound.totalSize_eq {columns : List Column} {sum : Nat}
    (h : sum + 4 * columns.length < 2 ^ 64) :
    w.info.totalSize columns sum = .ok (sum + w.totalSize columns) := by
  induction columns generalizing sum with
  | nil => rfl
  | cons column rest ih =>
      have hColumn := w.columnSize_le column
      rw [List.length_cons] at h
      rw [TableInfo.totalSize, hSound.columnSize_eq, ok_bind, fit_of_lt (by omega), ok_bind,
        ih (by omega), totalSize, Nat.add_assoc]

omit hSound in
/-- A row is bounded by the number of its columns, whatever the sizes of the tables. -/
theorem totalSize_le (columns : List Column) : w.totalSize columns ≤ 4 * columns.length := by
  induction columns with
  | nil => exact Nat.le_refl _
  | cons column rest ih =>
      have := w.columnSize_le column
      rw [totalSize, List.length_cons]
      omega

omit hSound in
/-- The tables with the most columns are those of assemblies and of references to them. -/
theorem length_columns_le (t : TableId) : t.columns.length ≤ 9 := by
  cases t <;> decide

omit hSound in
theorem rowSize_le (t : TableId) : w.rowSize t ≤ 36 := by
  have hLength := length_columns_le t
  have := w.totalSize_le t.columns
  unfold rowSize
  omega

theorem Sound.rowSize_eq (t : TableId) : w.info.rowSize t = .ok (w.rowSize t) := by
  have hLength := length_columns_le t
  rw [TableInfo.rowSize, hSound.totalSize_eq (by omega), Nat.zero_add]
  rfl

/-- The size of a whole table fits a word, since rows are short and their number fits 24 bits. -/
theorem Sound.tableSize_lt (t : TableId) : w.rowSize t * w.rows t < 2 ^ 64 :=
  Nat.lt_of_le_of_lt (Nat.mul_le_mul (w.rowSize_le t) (hSound.rows_le t)) (by decide)

/-- A column is read in as many bytes as were kept for it. -/
theorem Sound.follows_readColumn {s : Slice} {start : Nat} (column : Column) :
    Follows (w.info.readColumn column) (w.scanColumn column) s start := by
  have hIndex : ∀ wide, w.columnSize column = indexSize wide →
      Follows (compute (w.info.columnSize column) >>= fun size => uint (if size = 4 then 4 else 2))
        (w.scanColumn column) s start := by
    intro wide hWide
    refine .compute_ok (hSound.columnSize_eq column) ?_
    rw [scanColumn, hWide]
    cases wide <;> exact follows_uint _
  cases column with
  | fixed width => exact follows_uint _
  | name | guid | blob | row | coded => exact hIndex _ rfl

theorem Sound.follows_readColumns {s : Slice} {start : Nat} (columns : List Column) :
    Follows (w.info.readColumns columns) (w.scanColumns columns) s start := by
  induction columns generalizing start with
  | nil => exact follows_pure _
  | cons column rest ih =>
      exact (hSound.follows_readColumn column).bind fun _ _ _ => ih.bind fun _ _ _ => follows_pure _

omit hSound in
/-- All that is worked out for the tables in words is what it should be, for any numbers of rows
that were checked. -/
theorem ofCounts_eq {counts : List (TableId × Nat)}
    (hRows : ∀ c ∈ counts, c.2 ≤ TableStream.maxRows) (heapSizes : Nat) :
    TableInfo.ofCounts counts heapSizes = .ok (ofCounts counts heapSizes).info := by
  have hSound := sound_ofCounts hRows heapSizes
  have hStore := storeRows_eq hRows (Array.size_replicate (n := TableId.count) (v := none))
  have hCoded := hSound.storeCoded_eq (show CodedKind.all.map CodedKind.number
    = List.range' (#[] : Array Nat).size CodedKind.all.length from rfl)
  rw [Array.map_replicate] at hStore
  rw [Array.empty_append, Array.empty_append] at hCoded
  rw [TableInfo.ofCounts, show ({} : RowInfo) = infoOf none from rfl, hStore, ok_bind]
  exact congrArg (· >>= _) hCoded

end Widths

end IlSplice
