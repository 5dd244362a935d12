import IlSplice.Proofs.Tables.Stream

/-! All rows of all tables. They stand one behind the other, from the end of the header on, and
every column is the number at its own offset in the row. -/

namespace IlSplice

open Bytes

namespace TableId

/-- The list of tables has every number up to its length, in order. -/
theorem map_number_all : all.map number = List.range count := by decide

theorem number_of_getElem? {i : Nat} {t : TableId} (h : all[i]? = some t) : t.number = i := by
  have hNumber : (all.map number)[i]? = (List.range count)[i]? := by rw [map_number_all]
  rw [List.getElem?_map, h, Option.map_some] at hNumber
  obtain ⟨hLess, hSame⟩ := List.getElem?_eq_some_iff.1 hNumber.symm
  rw [List.getElem_range] at hSame
  exact hSame.symm

end TableId

/-- Every column is read at the offset that the columns in front of it leave. -/
theorem Widths.columnsAt_eq_mapIdx (w : Widths) (data : Bytes) (columns : List Column)
    (offset : Nat) : w.columnsAt data columns offset = columns.mapIdx fun i column =>
      data.uintAt (offset + w.totalSize (columns.take i)) (w.columnSize column) := by
  induction columns generalizing offset with
  | nil => rfl
  | cons column rest ih =>
      rw [columnsAt, ih, List.mapIdx_cons, List.take_zero, totalSize, Nat.add_zero]
      simp only [List.take_succ_cons, totalSize, Nat.add_assoc]

namespace TableStream

variable {s : TableStream} {data : Bytes} {start middle stop : Nat}
  {rows others : List (TableId × Nat)}

/-- The rows of a table. -/
def rowsOf (s : TableStream) (t : TableId) : List (TableId × Nat) :=
  (List.range' 1 (s.rows t)).map fun row => (t, row)

/-- All rows, by the numbers of their tables and then by their own. -/
def allRows (s : TableStream) : List (TableId × Nat) := TableId.all.flatMap s.rowsOf

/-- The bytes of the header, of the numbers of rows behind it, and of what a flag adds to them. -/
def headerSize (s : TableStream) : Nat :=
  24 + 4 * s.present.length + if s.heapSizes.toNat.testBit 6 then 4 else 0

/-- The rows stand one behind the other. The first one starts at `start`, and the last one ends at
`stop`. -/
def Tiles (s : TableStream) : Nat → List (TableId × Nat) → Nat → Prop
  | start, [], stop => start = stop
  | start, (t, row) :: rest, stop =>
    s.rowOffset t row = .ok start ∧ s.Tiles (start + s.widths.rowSize t) rest stop

/-- Rows of one part go on with those of the next, where the first part ends. -/
theorem Tiles.append (h : s.Tiles start rows middle) (h' : s.Tiles middle others stop) :
    s.Tiles start (rows ++ others) stop := by
  induction rows generalizing start with
  | nil =>
      cases h
      exact h'
  | cons r rest ih =>
      obtain ⟨hFirst, hRest⟩ := h
      exact ⟨hFirst, ih hRest⟩

/-- Some rows of a table, from any one on. -/
theorem tiles_range' {t : TableId} (before count : Nat) (hCount : before + count ≤ s.rows t) :
    s.Tiles (s.tableOffset t + before * s.widths.rowSize t)
      ((List.range' (before + 1) count).map fun row => (t, row))
      (s.tableOffset t + (before + count) * s.widths.rowSize t) := by
  induction count generalizing before with
  | zero => rfl
  | succ count ih =>
      rw [List.range'_succ, List.map_cons]
      refine ⟨rowOffset_of_le (Nat.succ_ne_zero _) (by omega), ?_⟩
      have hNext : s.tableOffset t + (before + 1) * s.widths.rowSize t
          = s.tableOffset t + before * s.widths.rowSize t + s.widths.rowSize t := by
        rw [Nat.add_mul, Nat.one_mul, Nat.add_assoc]
      have hRest := ih (before + 1) (by omega)
      rwa [hNext, Nat.add_right_comm before 1 count] at hRest

/-- By induction on the rows of one table, all of which have the same size. -/
theorem tiles_rowsOf (s : TableStream) (t : TableId) :
    s.Tiles (s.tableOffset t) (s.rowsOf t) (s.tableOffset t + s.widths.tableSize t) := by
  have hRows := tiles_range' (s := s) (t := t) 0 (s.rows t) (Nat.le_of_eq (Nat.zero_add _))
  rwa [Nat.zero_mul, Nat.add_zero, Nat.zero_add (s.rows t), Nat.mul_comm] at hRows

/-- The rows of tables that are placed one behind the other. -/
theorem exists_tiles {size : Nat} {tables : List TableId} (hStart : start ≤ size)
    (hPlaces : s.widths.starts start tables = tables.map s.tableOffset)
    (hInside : ∀ t ∈ tables, s.tableOffset t + s.widths.tableSize t ≤ size) :
    ∃ stop ≤ size, s.Tiles start (tables.flatMap s.rowsOf) stop := by
  induction tables generalizing start with
  | nil => exact ⟨start, hStart, rfl⟩
  | cons t rest ih =>
      rw [Widths.starts, List.map_cons, List.cons.injEq] at hPlaces
      obtain ⟨rfl, hRest⟩ := hPlaces
      rw [List.forall_mem_cons] at hInside
      obtain ⟨stop, hStop, hTiles⟩ := ih hInside.1 hRest hInside.2
      exact ⟨stop, hStop, (s.tiles_rowsOf t).append hTiles⟩

theorem ReadFrom.starts_all (h : s.ReadFrom data start) :
    s.widths.starts start TableId.all = TableId.all.map s.tableOffset := by
  apply List.ext_getElem?
  intro i
  rw [List.getElem?_map]
  cases hTable : TableId.all[i]? with
  | none =>
      rw [List.getElem?_eq_none_iff] at hTable
      rwa [Option.map_none, List.getElem?_eq_none_iff, Widths.length_starts]
  | some t =>
      rw [← TableId.number_of_getElem? hTable]
      exact h.starts_eq t

/-- The rows start where the header ends, whose size depends on the number of tables that are
present. -/
theorem ReadFrom.start_eq (h : s.ReadFrom data start) (hRead : ofBytes data = .ok s) :
    start = s.headerSize := by
  obtain ⟨counts, middle, hCounts, -, rfl⟩ := h.header
  obtain ⟨hHeaps, hValid⟩ := flags_of_ofBytes hRead
  rw [stop_of_scanCounts hCounts, headerSize, hHeaps, present, hValid]
  rfl

/-- A row is there exactly if its number is one of its table, and then each of its columns is the
number in the bytes of that column. -/
theorem ReadFrom.readRow_eq_ok (h : s.ReadFrom data start) {t : TableId} {row : Nat}
    {columns : List Nat} : s.readRow t row = .ok columns ↔ (1 ≤ row ∧ row ≤ s.rows t) ∧
      ∃ offset, s.rowOffset t row = .ok offset ∧ columns = t.columns.mapIdx fun i column =>
        data.uintAt (offset + s.widths.columnOffset t i) (s.widths.columnSize column) := by
  constructor
  · intro hRead
    have hRange := (row_of_readRow hRead).1
    have hZero := Nat.ne_of_gt hRange.1
    rw [h.readRow_eq hZero hRange.2, Widths.columnsAt_eq_mapIdx] at hRead
    exact ⟨hRange, _, rowOffset_of_le hZero hRange.2, (Except.ok.inj hRead).symm⟩
  · rintro ⟨⟨hPos, hRow⟩, offset, hOffset, rfl⟩
    rw [rowOffset_of_le (Nat.ne_of_gt hPos) hRow] at hOffset
    cases hOffset
    rw [h.readRow_eq (Nat.ne_of_gt hPos) hRow, Widths.columnsAt_eq_mapIdx]
    rfl

/-- The same rows are read from data that goes on. -/
theorem ReadFrom.readRow_append (h : s.ReadFrom data start) {more : Bytes} {start' : Nat}
    (hMore : ReadFrom (data ++ more) { s with data := data ++ more } start') (t : TableId)
    (row : Nat) : readRow { s with data := data ++ more } t row = s.readRow t row := by
  by_cases hRange : row = 0 ∨ s.rows t < row
  · rw [readRow_of_outside hRange]
    exact readRow_of_outside hRange
  · rw [not_or, Nat.not_lt] at hRange
    have hInside := (h.rowSpan_inside hRange.1 hRange.2).2
    rw [h.readRow_eq hRange.1 hRange.2]
    refine (hMore.readRow_eq hRange.1 hRange.2).trans (congrArg _ ?_)
    exact (Widths.columnsAt_congr ((agree_append data more).mono (Nat.zero_le _) hInside)).symm

/-- The rows of a stream tile the data from its header on, those that there are and no others can be
read, column by column at the columns' own offsets, and nothing of this depends on what follows. -/
theorem ofBytes_tiles (hRead : ofBytes data = .ok s) :
    (∃ stop ≤ data.size, s.Tiles s.headerSize s.allRows stop) ∧
      (∀ t row, (∃ columns, s.readRow t row = .ok columns) ↔ 1 ≤ row ∧ row ≤ s.rows t) ∧
      (∀ t row columns, s.readRow t row = .ok columns → ∃ offset, s.rowOffset t row = .ok offset ∧
        columns = t.columns.mapIdx fun i column =>
          data.uintAt (offset + s.widths.columnOffset t i) (s.widths.columnSize column)) ∧
      ∀ more, ofBytes (data ++ more) = .ok { s with data := data ++ more } ∧
        ∀ t row, rowOffset { s with data := data ++ more } t row = s.rowOffset t row ∧
          readRow { s with data := data ++ more } t row = s.readRow t row := by
  obtain ⟨start, hFrom⟩ := readFrom_of_ofBytes hRead
  refine ⟨?_, fun t row => ⟨?_, ?_⟩, ?_, fun more => ?_⟩
  · rw [← hFrom.start_eq hRead]
    exact exists_tiles hFrom.start_le hFrom.starts_all fun t _ =>
      hFrom.inside t _ (hFrom.starts_eq t)
  · rintro ⟨columns, hRow⟩
    exact (row_of_readRow hRow).1
  · intro hRow
    exact ⟨_, hFrom.readRow_eq_ok.2
      ⟨hRow, _, rowOffset_of_le (Nat.ne_of_gt hRow.1) hRow.2, rfl⟩⟩
  · intro t row columns hRow
    exact (hFrom.readRow_eq_ok.1 hRow).2
  · have hMore := hFrom.ofBytes_congr hRead
      ((agree_append data more).mono (Nat.le_refl _) hFrom.start_le) (by simp)
    obtain ⟨_, hFrom'⟩ := readFrom_of_ofBytes hMore
    exact ⟨hMore, fun t row => ⟨rfl, hFrom.readRow_append hFrom' t row⟩⟩

/-- A method and two members of other types, in a stream with wide names and with four bytes more in
its header. One byte is left behind the rows. -/
def methodAndMembers : Bytes := #[
  0, 0, 0, 0, 2, 0, 0x41, 1, 0x40, 4, 0, 0, 0, 0, 0, 0, 0, 0, 0, 0, 0, 0, 0, 0,
  1, 0, 0, 0, 2, 0, 0, 0, 0xFF, 0xFF, 0xFF, 0xFF,
  0x50, 0x20, 0, 0, 0, 0, 0x86, 0, 0x0A, 0, 1, 0, 1, 0, 1, 0,
  9, 0, 0x10, 0, 1, 0, 5, 0,
  0x11, 0, 0x20, 0, 1, 0, 5, 0,
  0x7F]

/-- Rows of two tables, in a stream whose names take four bytes. Two bytes more at the end change
nothing. -/
theorem ofBytes_tiles_methodAndMembers : ∃ s stop, ofBytes methodAndMembers = .ok s ∧ stop ≤ 69 ∧
    s.Tiles 36 [(.methodDef, 1), (.memberRef, 1), (.memberRef, 2)] stop ∧
    s.readRow .memberRef 2 = .ok [0x11, 0x10020, 5] ∧
    ofBytes (methodAndMembers ++ #[1, 2]) = .ok { s with data := methodAndMembers ++ #[1, 2] } ∧
    readRow { s with data := methodAndMembers ++ #[1, 2] } .memberRef 2
      = .ok [0x11, 0x10020, 5] := by
  have hLayout : (ofBytes methodAndMembers).toOption.map (fun s => (s.headerSize, s.allRows,
      (s.readRow .memberRef 2).toOption)) = some (36, [(.methodDef, 1), (.memberRef, 1),
      (.memberRef, 2)], some [0x11, 0x10020, 5]) := by decide +kernel
  obtain ⟨s, hSome, hParts⟩ := Option.map_eq_some_iff.1 hLayout
  obtain ⟨hHeader, hRows, hRow⟩ : s.headerSize = _ ∧ s.allRows = _ ∧
    (s.readRow .memberRef 2).toOption = _ := by simpa using hParts
  have hRead := Except.toOption_eq_some.1 hSome
  obtain ⟨⟨stop, hStop, hTiles⟩, _, _, hMore⟩ := ofBytes_tiles hRead
  obtain ⟨hAgain, hSame⟩ := hMore #[1, 2]
  rw [hHeader, hRows] at hTiles
  exact ⟨s, stop, hRead, hStop, hTiles, Except.toOption_eq_some.1 hRow, hAgain,
    (hSame .memberRef 2).2.trans (Except.toOption_eq_some.1 hRow)⟩

end TableStream

end IlSplice
