import IlSplice.Proofs.Machine.Widths

/-! The stream of tables in words, and the rows of any table. Numbers of rows come from the data;
they are small enough that the size of a table fits a word, and every table is checked to end
inside the data before a row of it is looked up. -/

namespace IlSplice

open Machine Reading

/-- A stream of tables with the sizes of its rows. -/
structure Tables where
  major : UInt8
  minor : UInt8
  heapSizes : UInt8
  valid : UInt64
  sorted : UInt64
  info : TableInfo
  data : Slice
  offsets : Array Nat

namespace Tables

/-- Reads the number of rows of each table of a mask. -/
def readCounts (valid : Nat) : List TableId → Reading (List (TableId × Nat))
  | [] => return []
  | table :: rest => do
    let bit ← compute (shiftLeft 64 1 table.number)
    if valid &&& bit = 0 then readCounts valid rest
    else
      let rows ← uint 4
      if TableStream.maxRows < rows then fault (.tooManyRows table rows)
      else return (table, rows) :: (← readCounts valid rest)

/-- Keeps where tables start that stand one behind the other, as far as the data goes. -/
def place (info : TableInfo) (size : Nat) : List TableId → Nat → Array Nat → Machine (Array Nat)
  | [], _, offsets => .ok offsets
  | table :: rest, offset, offsets => do
    let offsets ← store offsets table.number offset
    let rowSize ← info.rowSize table
    let tableSize ← fit 64 (rowSize * (← info.rowCount table))
    let stop ← endWithin size offset tableSize
    place info size rest stop offsets

/-- Reads what follows the masks of the header, and places the tables. -/
def readTables (major minor heapSizes : UInt8) (valid sorted : UInt64) : Reading Tables := do
  let unknown ← compute (shiftRight 64 valid.toNat TableId.count)
  if unknown ≠ 0 then fault (.unknownTables valid.toNat)
  else
    let counts ← readCounts valid.toNat TableId.all
    let here ← position
    let start ← compute (if heapSizes.toNat.testBit 6 then fit 64 (here + 4) else .ok here)
    let info ← compute (TableInfo.ofCounts counts heapSizes.toNat)
    let s ← read
    let offsets ← compute (place info s.bytes.size TableId.all start
      (Array.replicate TableId.all.length 0))
    return ⟨major, minor, heapSizes, valid, sorted, info, s, offsets⟩

/-- Reads the header of the stream and places its tables. -/
def read (s : Slice) : Machine Tables := do
  if s.bytes.size < 24 then fail .outOfBounds
  else
    let major ← s.numberFrom 1 4
    let minor ← s.numberFrom 1 5
    let heapSizes ← s.numberFrom 1 6
    let valid ← s.numberFrom 8 8
    let sorted ← s.numberFrom 8 16
    (readTables (UInt8.ofNat major) (UInt8.ofNat minor) (UInt8.ofNat heapSizes)
      (UInt64.ofNat valid) (UInt64.ofNat sorted)).evalAt s 24

/-- The offset of a row; rows are counted from one. -/
def rowOffset (t : Tables) (table : TableId) (row : Nat) : Machine Nat := do
  if row = 0 then fail .outOfBounds
  else if (← t.info.rowCount table) < row then fail .outOfBounds
  else
    let first ← present t.offsets[table.number]?
    let before ← sub row 1
    let distance ← fit 64 (before * (← t.info.rowSize table))
    fit 64 (first + distance)

/-- The columns of a row. -/
def readRow (t : Tables) (table : TableId) (row : Nat) : Machine (List Nat) := do
  let offset ← t.rowOffset table row
  (t.info.readColumns table.columns).evalAt t.data offset

/-- The stream, with what is kept of its tables. -/
def ofStream (s : Slice) (st : TableStream) : Tables :=
  ⟨st.major, st.minor, st.heapSizes, st.valid, st.sorted, st.widths.info, s, st.offsets⟩

end Tables

namespace Scan

theorem evalAt_map (f : α → β) (scan : Scan α) (data : Bytes) (position : Nat) :
    (f <$> scan).evalAt data position = f <$> scan.evalAt data position := by
  cases hScan : scan data position with
  | ok a stop =>
      have hMap : (f <$> scan) data position = .ok (f a) stop := by
        rw [map_eq_pure_bind, bind_of_ok hScan]
        rfl
      rw [evalAt, evalAt, hMap, hScan]
      rfl
  | error fault stop =>
      have hMap : (f <$> scan) data position = .error fault stop := by
        rw [map_eq_pure_bind, bind_of_error hScan]
      rw [evalAt, evalAt, hMap, hScan]
      rfl

end Scan

namespace TableStream

variable {s : Slice} {data : Bytes} {st : TableStream}

/-- The numbers of rows that were read are checked to be small, which keeps all sizes small. -/
theorem sound_of_ofBytes (hRead : ofBytes data = .ok st) : st.widths.Sound := by
  obtain ⟨start, hFrom⟩ := readFrom_of_ofBytes hRead
  obtain ⟨counts, stop, hCounts, hWidths, -⟩ := hFrom.header
  rw [hWidths]
  exact Widths.sound_ofCounts (le_maxRows_of_scanCounts hCounts) _

end TableStream

namespace Tables

variable {s : Slice} {st : TableStream}

theorem and_bit_eq_zero_iff (n i : Nat) : n &&& (1 <<< i) = 0 ↔ n.testBit i = false := by
  rw [Nat.one_shiftLeft, Nat.and_two_pow]
  cases n.testBit i <;> simp

/-- The mask is gone through table by table, where the scan goes through the tables that are
present. -/
theorem follows_readCounts {start valid : Nat} (tables : List TableId) :
    Follows (readCounts valid tables)
      (TableStream.scanCounts (tables.filter fun table => valid.testBit table.number)) s start := by
  induction tables generalizing start with
  | nil => exact follows_pure _
  | cons t rest ih =>
      have hNumber : 1 <<< t.number < 2 ^ 64 := by cases t <;> decide
      have hDistance : t.number < 64 := Nat.lt_trans t.number_lt (by decide)
      refine .compute_ok (shiftLeft_of_lt hDistance hNumber) ?_
      by_cases hBit : valid.testBit t.number
      · rw [if_neg (by rw [and_bit_eq_zero_iff, hBit]; decide), List.filter_cons, if_pos hBit]
        refine (follows_uint 4).bind fun rows _ _ => ?_
        split
        · exact follows_fault _
        · exact ih.bind fun _ _ _ => follows_pure _
      · rw [if_pos ((and_bit_eq_zero_iff _ _).2 (by simpa using hBit)), List.filter_cons,
          if_neg hBit]
        exact ih

/-- By induction on the tables. Where one ends is worked out from numbers of the data, and checked
before the next one is placed. -/
theorem place_eq {w : Widths} (hSound : w.Sound) {size : Nat} (hSize : size < 2 ^ 63)
    (offset : Nat) {tables : List TableId} {found : Array Nat}
    (hOrder : tables.map TableId.number = List.range' found.size tables.length) :
    place w.info size tables offset (found ++ Array.replicate tables.length 0)
      = ofChecked (TableStream.place w size tables offset found) := by
  induction tables generalizing offset found with
  | nil => simp [place, TableStream.place]
  | cons t rest ih =>
      rw [List.map_cons, List.length_cons, List.range'_succ, List.cons.injEq] at hOrder
      rw [place, hOrder.1, List.length_cons, store_front, ok_bind, hSound.rowSize_eq, ok_bind,
        hSound.rowCount_eq, ok_bind, fit_of_lt (hSound.tableSize_lt t), ok_bind, TableStream.place]
      rw [endWithin_eq hSize]
      split
      · exact ih _ (by rw [Array.size_push]; exact hOrder.2)
      · rfl

/-- Tables are numbered in the order in which they are placed. -/
theorem place_all {w : Widths} (hSound : w.Sound) {size : Nat} (hSize : size < 2 ^ 63)
    (offset : Nat) :
    place w.info size TableId.all offset (Array.replicate TableId.all.length 0)
      = ofChecked (TableStream.place w size TableId.all offset #[]) := by
  have hOrder : TableId.all.map TableId.number
      = List.range' (#[] : Array Nat).size TableId.all.length := rfl
  have hPlace := place_eq hSound hSize offset hOrder
  rwa [Array.empty_append] at hPlace

/-- All that follows the masks, once the first 24 bytes are known to be there. -/
theorem follows_readTables {major minor heapSizes : UInt8} {valid sorted : UInt64}
    (hSize : 24 ≤ s.bytes.size) :
    Follows (readTables major minor heapSizes valid sorted)
      (ofStream s <$> TableStream.scanTables major minor heapSizes valid sorted) s 24 := by
  refine .compute_ok (shiftRight_of_lt (by decide)) ?_
  unfold TableStream.scanTables
  split
  · exact follows_fault _
  rw [map_bind]
  refine (follows_readCounts _).bind fun counts stop hCounts => ?_
  have hRows := TableStream.le_maxRows_of_scanCounts hCounts
  have hSound := Widths.sound_ofCounts hRows heapSizes.toNat
  have hStop := TableStream.le_size_of_scanCounts hCounts hSize
  have hStart : (if heapSizes.toNat.testBit 6 then fit 64 (stop + 4) else .ok stop : Machine Nat)
      = .ok (stop + if heapSizes.toNat.testBit 6 then 4 else 0) := by
    have := s.size_lt
    split
    · exact fit_of_lt (by omega)
    · rfl
  refine .of_ok (show position s stop = .ok (stop, stop) from rfl) (.compute_ok hStart
    (.compute_ok (Widths.ofCounts_eq hRows _)
      (.of_ok (show (MonadReader.read : Reading Slice) s stop = .ok (s, stop) from rfl) ?_)))
  rw [Follows, map_bind, Scan.bind_of_ok (show (MonadReader.read : Scan Bytes) s.bytes stop
    = .ok s.bytes stop from rfl), map_bind, Scan.bind_of_ok (show Scan.position s.bytes stop
    = .ok stop stop from rfl), map_bind]
  exact (follows_check (place_all hSound s.size_lt _)).bind fun _ _ _ => rfl

/-- Whatever the bytes are, reading the stream in words ends as reading it does, and what is kept of
its tables is right. -/
theorem read_eq (s : Slice) :
    read s = ofChecked (ofStream s <$> TableStream.ofBytes s.bytes) := by
  unfold read
  split
  · rename_i hSize
    rw [TableStream.ofBytes_of_lt hSize]
    rfl
  · rename_i hSize
    rw [Slice.numberFrom_of_le (by omega), ok_bind, Slice.numberFrom_of_le (by omega), ok_bind,
      Slice.numberFrom_of_le (by omega), ok_bind, Slice.numberFrom_of_le (by omega), ok_bind,
      Slice.numberFrom_of_le (by omega), ok_bind,
      (follows_readTables (Nat.le_of_not_lt hSize)).evalAt, Scan.evalAt_map, TableStream.ofBytes]
    congr 2
    unfold Scan.evalAt
    rw [TableStream.scan_of_le (Nat.le_of_not_lt hSize)]

/-- The offset of every row that there is. -/
theorem rowOffset_eq (hRead : TableStream.ofBytes s.bytes = .ok st) (table : TableId) (row : Nat) :
    (ofStream s st).rowOffset table row = ofChecked (st.rowOffset table row) := by
  have hSound := TableStream.sound_of_ofBytes hRead
  have hCount : (ofStream s st).info.rowCount table = .ok (st.rows table) :=
    hSound.rowCount_eq table
  have hRowSize : (ofStream s st).info.rowSize table = .ok (st.widths.rowSize table) :=
    hSound.rowSize_eq table
  obtain ⟨start, hFrom⟩ := TableStream.readFrom_of_ofBytes hRead
  unfold rowOffset
  by_cases hZero : row = 0
  · rw [if_pos hZero, TableStream.rowOffset, if_pos (.inl hZero)]
    rfl
  rw [if_neg hZero, hCount, ok_bind]
  by_cases hRow : row ≤ st.rows table
  · have hFirst := hFrom.starts_eq table
    rw [← List.getElem?_toArray, ← hFrom.offsets_eq] at hFirst
    have hInside := (hFrom.rowSpan_inside hZero hRow).2
    have hSize := s.size_lt
    change st.tableOffset table + (row - 1) * st.widths.rowSize table + st.widths.rowSize table
      ≤ s.bytes.size at hInside
    rw [if_neg (Nat.not_lt.2 hRow), TableStream.rowOffset_of_le hZero hRow,
      show (ofStream s st).offsets[table.number]? = _ from hFirst]
    change (sub row 1 >>= _) = _
    rw [sub_of_le (by omega), ok_bind, hRowSize, ok_bind, fit_of_lt (by omega), ok_bind,
      fit_of_lt (by omega)]
    rfl
  · rw [if_pos (Nat.lt_of_not_le hRow), TableStream.rowOffset,
      if_pos (.inr (Nat.lt_of_not_le hRow))]
    rfl

theorem readRow_eq (hRead : TableStream.ofBytes s.bytes = .ok st) (table : TableId) (row : Nat) :
    (ofStream s st).readRow table row = ofChecked (st.readRow table row) := by
  have hData : st.data = s.bytes := (TableStream.readFrom_of_ofBytes hRead).choose_spec.data_eq
  rw [readRow, rowOffset_eq hRead]
  refine bind_ofChecked fun offset _ => ?_
  rw [hData]
  exact ((TableStream.sound_of_ofBytes hRead).follows_readColumns table.columns).evalAt

end Tables

end IlSplice
