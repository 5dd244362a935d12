import IlSplice.Proofs.Bytes.Overwrite
import IlSplice.Proofs.Bytes.Reading
import IlSplice.Tables.Row

/-! Where the rows of the tables are. Rows stand one behind the other without overlapping, and what
is read of a row depends on its own bytes only. -/

namespace IlSplice

open Bytes

/-- Tables are listed by their numbers. -/
theorem TableId.number_of_all (t : TableId) : all[t.number]? = some t := by
  cases t <;> rfl

theorem TableId.number_lt (t : TableId) : t.number < count := by
  cases t <;> decide

/-- No two tables have the same number. -/
theorem TableId.number_inj {t t' : TableId} (h : t.number = t'.number) : t = t' := by
  have hSame := t'.number_of_all
  rw [← h, t.number_of_all] at hSame
  exact Option.some.inj hSame

namespace Widths

variable {w : Widths} {data other : Bytes} {offset : Nat}

/-- The columns that stand one behind the other from an offset on. -/
def columnsAt (w : Widths) (data : Bytes) : List Column → Nat → List Nat
  | [], _ => []
  | column :: rest, offset =>
    data.uintAt offset (w.columnSize column) ::
      w.columnsAt data rest (offset + w.columnSize column)

/-- A row can be read exactly as far as its bytes are there. By induction on the columns. -/
theorem scanColumns_of_le {columns : List Column}
    (hInside : offset + w.totalSize columns ≤ data.size) :
    w.scanColumns columns data offset
      = .ok (w.columnsAt data columns offset) (offset + w.totalSize columns) := by
  induction columns generalizing offset with
  | nil => rfl
  | cons column rest ih =>
      rw [totalSize] at hInside
      have hColumn : w.scanColumn column data offset = _ :=
        if_pos (show offset + w.columnSize column ≤ data.size by omega)
      rw [scanColumns, Scan.bind_of_ok hColumn, Scan.bind_of_ok (ih (by omega)),
        Scan.pure_eq_ok]
      exact ⟨rfl, by rw [totalSize, Nat.add_assoc]⟩

theorem length_of_scanColumns {columns : List Column} {values : List Nat} {stop : Nat}
    (hScan : w.scanColumns columns data offset = .ok values stop) :
    values.length = columns.length := by
  induction columns generalizing offset stop values with
  | nil =>
      obtain ⟨rfl, -⟩ := Scan.pure_eq_ok.1 hScan
      rfl
  | cons column rest ih =>
      obtain ⟨value, middle, -, hScan⟩ := Scan.bind_eq_ok hScan
      obtain ⟨others, last, hRest, hPure⟩ := Scan.bind_eq_ok hScan
      obtain ⟨rfl, -⟩ := Scan.pure_eq_ok.1 hPure
      rw [List.length_cons, List.length_cons, ih hRest]

/-- A row depends on its own bytes only. -/
theorem columnsAt_congr {columns : List Column}
    (hAgree : data.Agree other offset (offset + w.totalSize columns)) :
    w.columnsAt data columns offset = w.columnsAt other columns offset := by
  induction columns generalizing offset with
  | nil => rfl
  | cons column rest ih =>
      rw [totalSize] at hAgree
      rw [columnsAt, columnsAt, ih (hAgree.mono (by omega) (by omega)),
        (hAgree.mono (Nat.le_refl _) (by omega) :
          data.Agree other offset (offset + w.columnSize column)).uintAt]

/-- Tables that are not listed have no rows, and all others the number that is listed. -/
theorem rows_ofCounts_le {counts : List (TableId × Nat)} {bound : Nat}
    (hCounts : ∀ c ∈ counts, c.2 ≤ bound) (heapSizes : Nat) (t : TableId) :
    (ofCounts counts heapSizes).rows t ≤ bound := by
  have hFold : ∀ found : Array (Option Nat),
      (∀ (i rows : Nat), found[i]? = some (some rows) → rows ≤ bound) → ∀ (i rows : Nat),
        (counts.foldl (fun counts c => counts.setIfInBounds c.1.number (some c.2)) found)[i]?
          = some (some rows) →
        rows ≤ bound := by
    induction counts with
    | nil => exact fun _ hFound => hFound
    | cons c rest ih =>
        rw [List.forall_mem_cons] at hCounts
        intro found hFound
        refine ih hCounts.2 _ fun i rows hRows => ?_
        rw [Array.getElem?_setIfInBounds] at hRows
        split at hRows
        · split at hRows
          · cases hRows
            exact hCounts.1
          · cases hRows
        · exact hFound i rows hRows
  unfold rows
  cases hRows : (ofCounts counts heapSizes).rows? t with
  | none => exact Nat.zero_le _
  | some n =>
      refine hFold (Array.replicate TableId.count none) (fun i rows hNone => ?_) t.number n
        (Option.join_eq_some_iff.1 hRows)
      obtain ⟨hInside, hNone⟩ := Array.getElem?_eq_some_iff.1 hNone
      rw [Array.getElem_replicate] at hNone
      cases hNone

/-- The bytes of a table. -/
def tableSize (w : Widths) (t : TableId) : Nat := w.rowSize t * w.rows t

/-- Where tables start that stand one behind the other. -/
def starts (w : Widths) (offset : Nat) : List TableId → List Nat
  | [] => []
  | t :: rest => offset :: w.starts (offset + w.tableSize t) rest

theorem length_starts (tables : List TableId) (offset : Nat) :
    (w.starts offset tables).length = tables.length := by
  induction tables generalizing offset with
  | nil => rfl
  | cons t rest ih => exact congrArg (· + 1) (ih _)

theorem le_of_mem_starts {tables : List TableId} {start : Nat}
    (hMem : start ∈ w.starts offset tables) : offset ≤ start := by
  induction tables generalizing offset with
  | nil => cases hMem
  | cons t rest ih =>
      rcases List.mem_cons.1 hMem with rfl | hMem
      · exact Nat.le_refl _
      · have := ih hMem
        omega

/-- A table ends where a later one starts, or before. -/
theorem starts_ordered {tables : List TableId} {i j first second : Nat} {t : TableId}
    (hOrder : i < j) (hTable : tables[i]? = some t)
    (hFirst : (w.starts offset tables)[i]? = some first)
    (hSecond : (w.starts offset tables)[j]? = some second) : first + w.tableSize t ≤ second := by
  induction tables generalizing offset i j with
  | nil => cases hTable
  | cons head rest ih =>
      cases j with
      | zero => cases hOrder
      | succ j =>
          cases i with
          | zero =>
              cases hTable
              cases hFirst
              exact le_of_mem_starts (List.mem_of_getElem? hSecond)
          | succ i => exact ih (Nat.lt_of_succ_lt_succ hOrder) hTable hFirst hSecond

end Widths

namespace TableStream

variable {s s' : TableStream} {data other : Bytes} {offset : Nat}

/-- Tables that are placed stand one behind the other, and each was checked to end in the data. -/
theorem place_eq_ok {w : Widths} {size : Nat} {tables : List TableId} {found result : Array Nat}
    (hPlace : place w size tables offset found = .ok result) :
    result = found ++ (w.starts offset tables).toArray ∧
      ∀ (i : Nat) (t : TableId) (start : Nat), tables[i]? = some t →
        (w.starts offset tables)[i]? = some start → start + w.tableSize t ≤ size := by
  induction tables generalizing offset found with
  | nil =>
      cases hPlace
      exact ⟨by simp [Widths.starts], by simp⟩
  | cons t rest ih =>
      rw [place] at hPlace
      split at hPlace
      · rename_i hFits
        obtain ⟨rfl, hRest⟩ := ih hPlace
        refine ⟨by simp [Widths.starts, Widths.tableSize], fun i t' start hTable hStart => ?_⟩
        cases i with
        | zero =>
            cases hTable
            cases hStart
            exact hFits
        | succ i => exact hRest i t' start hTable hStart
      · cases hPlace

/-- Tables that have their places have the same ones in longer data. -/
theorem place_of_le {w : Widths} {size larger : Nat} {tables : List TableId}
    {found result : Array Nat} (hPlace : place w size tables offset found = .ok result)
    (hLe : size ≤ larger) : place w larger tables offset found = .ok result := by
  induction tables generalizing offset found with
  | nil => exact hPlace
  | cons t rest ih =>
      rw [place] at hPlace ⊢
      split at hPlace
      · rename_i hFits
        rw [if_pos (Nat.le_trans hFits hLe)]
        exact ih hPlace
      · cases hPlace

/-- The numbers of rows stand behind the masks, one for each table that is present. -/
theorem local_scanCounts (tables : List TableId) : Scan.Local (scanCounts tables) := by
  induction tables with
  | nil => exact Scan.local_pure _
  | cons t rest ih =>
      refine (Scan.local_uint 4).bind fun rows => ?_
      split
      · exact Scan.local_throw _
      · exact ih.bind fun _ => Scan.local_pure _

theorem le_size_of_scanCounts {tables : List TableId} {counts : List (TableId × Nat)}
    {start stop : Nat} (hScan : scanCounts tables data start = .ok counts stop)
    (hStart : start ≤ data.size) : stop ≤ data.size := by
  induction tables generalizing start stop counts with
  | nil =>
      obtain ⟨-, rfl⟩ := Scan.pure_eq_ok.1 hScan
      exact hStart
  | cons t rest ih =>
      obtain ⟨rows, middle, hRows, hScan⟩ := Scan.bind_eq_ok hScan
      have hMiddle := (Scan.uint_eq_ok hRows).2.1
      split at hScan
      · cases hScan
      · obtain ⟨others, last, hRest, hPure⟩ := Scan.bind_eq_ok hScan
        obtain ⟨-, rfl⟩ := Scan.pure_eq_ok.1 hPure
        exact ih hRest hMiddle

/-- Each number of rows takes four bytes. -/
theorem stop_of_scanCounts {tables : List TableId} {counts : List (TableId × Nat)}
    {start stop : Nat} (hScan : scanCounts tables data start = .ok counts stop) :
    stop = start + 4 * tables.length := by
  induction tables generalizing start stop counts with
  | nil => exact (Scan.pure_eq_ok.1 hScan).2.symm
  | cons t rest ih =>
      obtain ⟨rows, middle, hRows, hScan⟩ := Scan.bind_eq_ok hScan
      obtain ⟨rfl, -, -⟩ := Scan.uint_eq_ok hRows
      split at hScan
      · cases hScan
      · obtain ⟨others, last, hRest, hPure⟩ := Scan.bind_eq_ok hScan
        obtain ⟨-, rfl⟩ := Scan.pure_eq_ok.1 hPure
        rw [ih hRest, List.length_cons]
        omega

/-- Each of them was checked against what a token has room for. -/
theorem le_maxRows_of_scanCounts {tables : List TableId} {counts : List (TableId × Nat)}
    {start stop : Nat} (hScan : scanCounts tables data start = .ok counts stop) :
    ∀ c ∈ counts, c.2 ≤ maxRows := by
  induction tables generalizing start stop counts with
  | nil =>
      obtain ⟨rfl, _⟩ := Scan.pure_eq_ok.1 hScan
      simp
  | cons t rest ih =>
      obtain ⟨rows, middle, _, hScan⟩ := Scan.bind_eq_ok hScan
      split at hScan
      · cases hScan
      · rename_i hFits
        obtain ⟨others, last, hRest, hPure⟩ := Scan.bind_eq_ok hScan
        obtain ⟨rfl, _⟩ := Scan.pure_eq_ok.1 hPure
        rw [List.forall_mem_cons]
        exact ⟨Nat.le_of_not_lt hFits, ih hRest⟩

/-- The tables that a mask has. -/
def tablesOf (valid : Nat) : List TableId :=
  TableId.all.filter fun table => valid.testBit table.number

/-- Reads what follows the masks of the header, and places the tables. -/
def scanTables (major minor heapSizes : UInt8) (valid sorted : UInt64) : Scan TableStream := do
  if valid.toNat >>> TableId.count ≠ 0 then throw (.unknownTables valid.toNat)
  else
    let counts ← scanCounts (tablesOf valid.toNat)
    let extra := if heapSizes.toNat.testBit 6 then 4 else 0
    let w := Widths.ofCounts counts heapSizes.toNat
    let data ← read
    let offsets ← Scan.check (place w data.size TableId.all ((← Scan.position) + extra) #[])
    return ⟨major, minor, heapSizes, valid, sorted, w, data, offsets⟩

/-- The header of fixed size, whose fields are read off in one step. -/
theorem scan_of_le (hSize : 24 ≤ data.size) : scan data 0 =
    scanTables (UInt8.ofNat (data.uintAt 4 1)) (UInt8.ofNat (data.uintAt 5 1))
      (UInt8.ofNat (data.uintAt 6 1)) (UInt64.ofNat (data.uintAt 8 8))
      (UInt64.ofNat (data.uintAt 16 8)) data 24 := by
  rw [scan, Scan.skip_bind, if_pos (by omega), Scan.u8, Scan.uint_map_bind, if_pos (by omega),
    Scan.uint_map_bind, if_pos (by omega), Scan.uint_map_bind, if_pos (by omega), Scan.skip_bind,
    if_pos (by omega), Scan.u64, Scan.uint_map_bind, if_pos (by omega), Scan.uint_map_bind,
    if_pos (by omega)]
  rfl

/-- Without that header there is nothing to read. -/
theorem ofBytes_of_lt (hSize : data.size < 24) : ofBytes data = .error .outOfBounds := by
  rw [ofBytes, Scan.evalAt, scan, Scan.skip_bind, Scan.u8, Scan.uint_map_bind, Scan.uint_map_bind,
    Scan.uint_map_bind, Scan.skip_bind, Scan.u64, Scan.uint_map_bind, Scan.uint_map_bind]
  split_ifs <;> first | rfl | omega

/-- All that follows the header: a check of the mask, the numbers of rows, and the places of the
tables. -/
theorem scanTables_eq_ok {major minor heapSizes : UInt8} {valid sorted : UInt64}
    {start stop : Nat} :
    scanTables major minor heapSizes valid sorted data start = .ok s stop ↔
      valid.toNat >>> TableId.count = 0 ∧ ∃ counts offsets,
        scanCounts (tablesOf valid.toNat) data start = .ok counts stop ∧
        place (Widths.ofCounts counts heapSizes.toNat) data.size TableId.all
          (stop + if heapSizes.toNat.testBit 6 then 4 else 0) #[] = .ok offsets ∧
        s = ⟨major, minor, heapSizes, valid, sorted, Widths.ofCounts counts heapSizes.toNat, data,
          offsets⟩ := by
  unfold scanTables
  constructor
  · intro hScan
    split at hScan
    · cases hScan
    rename_i hKnown
    obtain ⟨counts, p₁, hCounts, hScan⟩ := Scan.bind_eq_ok hScan
    obtain ⟨_, p₂, h₂, hScan⟩ := Scan.bind_eq_ok hScan
    cases h₂
    obtain ⟨_, p₃, h₃, hScan⟩ := Scan.bind_eq_ok hScan
    cases h₃
    obtain ⟨offsets, p₄, hPlace, hScan⟩ := Scan.bind_eq_ok hScan
    obtain ⟨hOffsets, rfl⟩ := Scan.check_eq_ok.1 hPlace
    obtain ⟨rfl, rfl⟩ := Scan.pure_eq_ok.1 hScan
    exact ⟨not_not.1 hKnown, counts, offsets, hCounts, hOffsets, rfl⟩
  · rintro ⟨hKnown, counts, offsets, hCounts, hPlace, rfl⟩
    rw [if_neg (not_not.2 hKnown), Scan.bind_of_ok hCounts]
    exact Scan.bind_of_ok (Scan.check_eq_ok.2 ⟨hPlace, rfl⟩)

/-- A stream is read exactly if its header is there and what follows it can be read. -/
theorem ofBytes_eq_ok : ofBytes data = .ok s ↔ 24 ≤ data.size ∧ ∃ stop,
    scanTables (UInt8.ofNat (data.uintAt 4 1)) (UInt8.ofNat (data.uintAt 5 1))
      (UInt8.ofNat (data.uintAt 6 1)) (UInt64.ofNat (data.uintAt 8 8))
      (UInt64.ofNat (data.uintAt 16 8)) data 24 = .ok s stop := by
  rcases Nat.lt_or_ge data.size 24 with hLess | hSize
  · rw [ofBytes_of_lt hLess]
    refine ⟨fun hRead => ?_, fun hParts => absurd hParts.1 (Nat.not_le.2 hLess)⟩
    cases hRead
  · rw [ofBytes, Scan.evalAt_eq_ok, scan_of_le hSize, and_iff_right hSize]

/-- What the header of the stream says, and where it ends. -/
structure ReadFrom (data : Bytes) (s : TableStream) (start : Nat) : Prop where
  data_eq : s.data = data
  header : ∃ counts stop, scanCounts (tablesOf (data.uintAt 8 8)) data 24 = .ok counts stop ∧
    s.widths = Widths.ofCounts counts (data.uintAt 6 1) ∧
    start = stop + if (data.uintAt 6 1).testBit 6 then 4 else 0
  offsets_eq : s.offsets = (s.widths.starts start TableId.all).toArray
  inside : ∀ t first, (s.widths.starts start TableId.all)[t.number]? = some first →
    first + s.widths.tableSize t ≤ data.size

theorem toNat_validMask (data : Bytes) :
    (UInt64.ofNat (data.uintAt 8 8)).toNat = data.uintAt 8 8 := by
  have hRange : data.uintAt 8 8 < 2 ^ 64 := uintAt_lt data 8 8
  rw [UInt64.toNat_ofNat', Nat.mod_eq_of_lt hRange]

theorem toNat_heapSizes (data : Bytes) :
    (UInt8.ofNat (data.uintAt 6 1)).toNat = data.uintAt 6 1 := by
  have hRange : data.uintAt 6 1 < 2 ^ 8 := uintAt_lt data 6 1
  rw [UInt8.toNat_ofNat', Nat.mod_eq_of_lt hRange]

/-- The flags and the mask of a stream that was read are those of its header. -/
theorem flags_of_ofBytes (hRead : ofBytes data = .ok s) :
    s.heapSizes.toNat = data.uintAt 6 1 ∧ s.valid.toNat = data.uintAt 8 8 := by
  obtain ⟨-, stop, hScan⟩ := ofBytes_eq_ok.1 hRead
  obtain ⟨-, counts, offsets, -, -, rfl⟩ := scanTables_eq_ok.1 hScan
  exact ⟨toNat_heapSizes data, toNat_validMask data⟩

/-- All that is known of a stream that was read. Later proofs refer to the parts by name. -/
theorem readFrom_of_ofBytes (hRead : ofBytes data = .ok s) : ∃ start, s.ReadFrom data start := by
  obtain ⟨-, stop, hScan⟩ := ofBytes_eq_ok.1 hRead
  obtain ⟨-, counts, offsets, hCounts, hPlace, rfl⟩ := scanTables_eq_ok.1 hScan
  have hHeaps := toNat_heapSizes data
  rw [hHeaps] at hPlace
  rw [toNat_validMask] at hCounts
  obtain ⟨hOffsets, hInside⟩ := place_eq_ok hPlace
  refine ⟨_, rfl, ⟨counts, _, hCounts, ?_, rfl⟩, ?_, fun t first hFirst => ?_⟩
  · rw [hHeaps]
  · rw [hOffsets, Array.empty_append, hHeaps]
  · rw [hHeaps] at hFirst ⊢
    exact hInside _ t first t.number_of_all hFirst

/-- A stream is accepted for its header, its numbers of rows and the places of its tables. -/
theorem exists_ofBytes {counts : List (TableId × Nat)} {stop : Nat} {offsets : Array Nat}
    (hSize : 24 ≤ data.size) (hKnown : data.uintAt 8 8 >>> TableId.count = 0)
    (hCounts : scanCounts (tablesOf (data.uintAt 8 8)) data 24 = .ok counts stop)
    (hPlace : place (Widths.ofCounts counts (data.uintAt 6 1)) data.size TableId.all
      (stop + if (data.uintAt 6 1).testBit 6 then 4 else 0) #[] = .ok offsets) :
    ∃ s, ofBytes data = .ok s ∧ s.widths = Widths.ofCounts counts (data.uintAt 6 1) ∧
      s.offsets = offsets := by
  rw [← toNat_validMask] at hKnown hCounts
  rw [← toNat_heapSizes] at hPlace ⊢
  exact ⟨_, ofBytes_eq_ok.2 ⟨hSize, stop,
    scanTables_eq_ok.2 ⟨hKnown, counts, offsets, hCounts, hPlace, rfl⟩⟩, rfl, rfl⟩

theorem ReadFrom.start_ge {start : Nat} (h : s.ReadFrom data start) : 24 ≤ start := by
  obtain ⟨counts, stop, hCounts, _, rfl⟩ := h.header
  have := (local_scanCounts _).le hCounts
  omega

/-- The rows do not matter for the header and for where the tables are, nor does what is behind
them. -/
theorem ReadFrom.ofBytes_congr {start : Nat} (h : s.ReadFrom data start)
    (hRead : ofBytes data = .ok s) (hAgree : data.Agree other 0 start)
    (hSize : data.size ≤ other.size) : ofBytes other = .ok { s with data := other } := by
  have hStart := h.start_ge
  have hNumber : ∀ offset width, offset + width ≤ 24 →
      other.uintAt offset width = data.uintAt offset width := fun offset width hInside =>
    (hAgree.mono (Nat.zero_le _) (by omega) : data.Agree other offset (offset + width)).symm.uintAt
  obtain ⟨hHeader, stop, hScan⟩ := ofBytes_eq_ok.1 hRead
  obtain ⟨hKnown, counts, offsets, hCounts, hPlace, rfl⟩ := scanTables_eq_ok.1 hScan
  have hStop : stop ≤ start := by
    obtain ⟨counts', stop', hCounts', -, rfl⟩ := h.header
    rw [toNat_validMask, hCounts'] at hCounts
    cases hCounts
    omega
  rw [ofBytes_eq_ok, hNumber 4 1 (by decide), hNumber 5 1 (by decide), hNumber 6 1 (by decide),
    hNumber 8 8 (by decide), hNumber 16 8 (by decide)]
  refine ⟨Nat.le_trans hHeader hSize, stop,
    scanTables_eq_ok.2 ⟨hKnown, counts, offsets, ?_, place_of_le hPlace hSize, rfl⟩⟩
  exact (local_scanCounts _).congr hCounts (hAgree.mono (Nat.zero_le _) hStop)
    (Nat.le_trans (le_size_of_scanCounts hCounts hHeader) hSize)

/-- Numbers of rows fit a token in every stream that was read. -/
theorem rows_le_of_ofBytes (hRead : ofBytes data = .ok s) (t : TableId) : s.rows t ≤ maxRows := by
  obtain ⟨start, hFrom⟩ := readFrom_of_ofBytes hRead
  obtain ⟨counts, stop, hCounts, hWidths, _⟩ := hFrom.header
  rw [rows, hWidths]
  exact Widths.rows_ofCounts_le (le_maxRows_of_scanCounts hCounts) _ t

/-- Where the rows of a table start. -/
def tableOffset (s : TableStream) (t : TableId) : Nat := s.offsets.getD t.number 0

/-- Where a table starts is kept under its number. -/
theorem ReadFrom.starts_eq {start : Nat} (h : s.ReadFrom data start) (t : TableId) :
    (s.widths.starts start TableId.all)[t.number]? = some (s.tableOffset t) := by
  have hInside : t.number < (s.widths.starts start TableId.all).length := by
    rw [Widths.length_starts]
    exact (List.getElem?_eq_some_iff.1 t.number_of_all).1
  rw [tableOffset, h.offsets_eq, Array.getD_eq_getD_getElem?, List.getElem?_toArray,
    List.getElem?_eq_getElem hInside, Option.getD_some]

/-- The bytes of a row. -/
def rowSpan (s : TableStream) (t : TableId) (row : Nat) : Span :=
  let start := s.tableOffset t + (row - 1) * s.widths.rowSize t
  ⟨start, start + s.widths.rowSize t⟩

/-- A row that is there lies as many rows behind the start of its table as its number says. -/
theorem rowOffset_eq_ok {t : TableId} {row : Nat} (hRow : s.rowOffset t row = .ok offset) :
    row ≠ 0 ∧ row ≤ s.rows t ∧ offset = (s.rowSpan t row).start := by
  unfold rowOffset at hRow
  split at hRow
  · cases hRow
  · rename_i hRange
    cases hRow
    exact ⟨fun h => hRange (.inl h), Nat.le_of_not_lt fun h => hRange (.inr h), rfl⟩

theorem rowOffset_of_le {t : TableId} {row : Nat} (hZero : row ≠ 0) (hRow : row ≤ s.rows t) :
    s.rowOffset t row = .ok (s.rowSpan t row).start :=
  if_neg fun hRange => hRange.elim hZero (Nat.not_lt.2 hRow)

/-- A row that is read stands in its table, and has as many columns as its table. -/
theorem row_of_readRow {t : TableId} {row : Nat} {columns : List Nat}
    (hRow : s.readRow t row = .ok columns) :
    (1 ≤ row ∧ row ≤ s.rows t) ∧ columns.length = t.columns.length := by
  obtain ⟨offset, hOffset, hScan⟩ := Except.bind_eq_ok.1 hRow
  obtain ⟨stop, hScan⟩ := Scan.evalAt_eq_ok.1 hScan
  obtain ⟨hZero, hLe, -⟩ := rowOffset_eq_ok hOffset
  exact ⟨⟨Nat.pos_of_ne_zero hZero, hLe⟩, Widths.length_of_scanColumns hScan⟩

theorem row_le_of_get {α : Type} [TableRow α] {row : Nat} {a : α} (hGet : s.get α row = .ok a) :
    row ≤ s.rows (TableRow.table α) := by
  obtain ⟨_, hRow, _⟩ := Except.bind_eq_ok.1 hGet
  exact (row_of_readRow hRow).1.2

/-- A row lies inside its table. -/
theorem rowSpan_le {t : TableId} {row : Nat} (hZero : row ≠ 0) (hRow : row ≤ s.rows t) :
    s.tableOffset t ≤ (s.rowSpan t row).start ∧
      (s.rowSpan t row).stop ≤ s.tableOffset t + s.widths.tableSize t := by
  refine ⟨Nat.le_add_right _ _, ?_⟩
  have hLe : (row - 1 + 1) * s.widths.rowSize t ≤ s.rows t * s.widths.rowSize t :=
    Nat.mul_le_mul_right _ (by omega)
  rw [Nat.add_mul, Nat.one_mul] at hLe
  rw [rowSpan, Widths.tableSize, Nat.mul_comm (s.widths.rowSize t)]
  change _ + _ + _ ≤ _ + s.rows t * _
  omega

/-- Two rows have no byte in common. -/
theorem ReadFrom.apart {start : Nat} (h : s.ReadFrom data start) {t t' : TableId} {row row' : Nat}
    (hZero : row ≠ 0) (hRow : row ≤ s.rows t) (hZero' : row' ≠ 0) (hRow' : row' ≤ s.rows t')
    (hOther : t = t' → row ≠ row') : (s.rowSpan t row).Apart (s.rowSpan t' row') := by
  obtain ⟨hStart, hStop⟩ := rowSpan_le hZero hRow
  obtain ⟨hStart', hStop'⟩ := rowSpan_le hZero' hRow'
  have hOrder : ∀ {a b : TableId}, a.number < b.number →
      s.tableOffset a + s.widths.tableSize a ≤ s.tableOffset b := fun {a b} hLess =>
    Widths.starts_ordered hLess a.number_of_all (h.starts_eq a) (h.starts_eq b)
  unfold Span.Apart
  rcases Nat.lt_trichotomy t.number t'.number with hLess | hSame | hMore
  · have := hOrder hLess
    omega
  · obtain rfl := TableId.number_inj hSame
    have hApart : ∀ {r r' : Nat}, r ≠ 0 → r < r' →
        (s.rowSpan t r).stop ≤ (s.rowSpan t r').start := by
      intro r r' hZero hLess
      have hLe : (r - 1 + 1) * s.widths.rowSize t ≤ (r' - 1) * s.widths.rowSize t :=
        Nat.mul_le_mul_right _ (by omega)
      rw [Nat.add_mul, Nat.one_mul] at hLe
      change _ + _ + _ ≤ _ + _
      omega
    rcases Nat.lt_or_gt_of_ne (hOther rfl) with hLess | hMore
    · exact .inl (hApart hZero hLess)
    · exact .inr (hApart hZero' hMore)
  · have := hOrder hMore
    omega

/-- All rows lie in the data, because their table does. -/
theorem ReadFrom.rowSpan_inside {start : Nat} (h : s.ReadFrom data start) {t : TableId} {row : Nat}
    (hZero : row ≠ 0) (hRow : row ≤ s.rows t) :
    start ≤ (s.rowSpan t row).start ∧ (s.rowSpan t row).stop ≤ data.size := by
  obtain ⟨hStart, hStop⟩ := rowSpan_le hZero hRow
  have hFirst := Widths.le_of_mem_starts (List.mem_of_getElem? (h.starts_eq t))
  have hLast := h.inside t _ (h.starts_eq t)
  omega

/-- The header lies in the data, also where no row follows it. -/
theorem ReadFrom.start_le {start : Nat} (h : s.ReadFrom data start) : start ≤ data.size := by
  have hFirst := Widths.le_of_mem_starts (List.mem_of_getElem? (h.starts_eq .module))
  have hLast := h.inside .module _ (h.starts_eq .module)
  omega

/-- A row that exists is read from its bytes. -/
theorem ReadFrom.readRow_eq {start : Nat} (h : s.ReadFrom data start) {t : TableId} {row : Nat}
    (hZero : row ≠ 0) (hRow : row ≤ s.rows t) :
    s.readRow t row = .ok (s.widths.columnsAt data t.columns (s.rowSpan t row).start) := by
  have hInside := (h.rowSpan_inside hZero hRow).2
  refine Except.bind_eq_ok.2 ⟨_, rowOffset_of_le hZero hRow, ?_⟩
  rw [h.data_eq]
  exact Scan.evalAt_eq_ok.2 ⟨_, Widths.scanColumns_of_le hInside⟩

/-- Rows are counted from one, and row zero is as much out of bounds as one behind the last. -/
theorem readRow_of_outside {t : TableId} {row : Nat} (hRow : row = 0 ∨ s.rows t < row) :
    s.readRow t row = .error .outOfBounds := by
  rw [readRow, rowOffset, if_pos hRow]
  rfl

/-- Streams with the same header have their rows in the same places. -/
theorem ReadFrom.layout_eq {start start' : Nat} (h : s.ReadFrom data start)
    (h' : s'.ReadFrom other start') (hAgree : data.Agree other 0 start)
    (hSize : start ≤ other.size) :
    s'.widths = s.widths ∧ s'.offsets = s.offsets := by
  have hHeader := h.start_ge
  obtain ⟨counts, stop, hCounts, hWidths, hStart⟩ := h.header
  obtain ⟨counts', stop', hCounts', hWidths', hStart'⟩ := h'.header
  have hHeaps : other.uintAt 6 1 = data.uintAt 6 1 :=
    (hAgree.mono (by omega) (by omega) : data.Agree other 6 (6 + 1)).symm.uintAt
  have hValid : other.uintAt 8 8 = data.uintAt 8 8 :=
    (hAgree.mono (by omega) (by omega) : data.Agree other 8 (8 + 8)).symm.uintAt
  have hStop : stop ≤ start := by omega
  rw [hValid, (local_scanCounts _).congr hCounts (hAgree.mono (Nat.zero_le _) hStop) (by omega)]
    at hCounts'
  cases hCounts'
  rw [hHeaps] at hWidths' hStart'
  have hSame : s'.widths = s.widths := hWidths'.trans hWidths.symm
  refine ⟨hSame, ?_⟩
  rw [h'.offsets_eq, h.offsets_eq, hSame, hStart', hStart]

end TableStream

end IlSplice
