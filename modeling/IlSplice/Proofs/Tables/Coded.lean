import IlSplice.Proofs.Tables.Stream

/-! Coded indexes. A column of them takes two bytes exactly as long as every row of its tables fits
beside the tag, and what is put together from a tag and a row is taken apart into the same two. -/

namespace IlSplice

namespace CodedIndex

theorem table_token (c : CodedIndex) : c.token.table = c.table.number := by
  have hNumber : c.table.number < 45 := c.table.number_lt
  rw [token, Token.table_ofParts, Nat.mod_eq_of_lt (by omega)]

/-- A token has room for 24 bits of the row. -/
theorem row_token (c : CodedIndex) : c.token.row = c.row % 0x1000000 := Token.row_ofParts _ _

end CodedIndex

namespace CodedKind

variable {kind : CodedKind} {tag row value : Nat} {t : TableId} {c : CodedIndex} {fault : Fault}

/-- No family has one table only, and none has more than a tag of five bits can tell apart. -/
theorem two_le_length (kind : CodedKind) : 2 ≤ kind.tables.length ∧ kind.tables.length ≤ 22 := by
  cases kind <;> decide

/-- Tags have at most five bits, so that the row keeps 27 of 32. -/
theorem tagBits_le (kind : CodedKind) : kind.tagBits ≤ 5 := by
  cases kind <;> decide

/-- Every table of the family has a tag of its own. -/
theorem length_le (kind : CodedKind) : kind.tables.length ≤ 2 ^ kind.tagBits := by
  cases kind <;> decide

/-- The low bits choose the table, and all others are the row. -/
theorem decode_eq_ok : kind.decode value = .ok c ↔
    kind.tables[value % 2 ^ kind.tagBits]? = some c.table ∧ c.row = value >>> kind.tagBits := by
  rw [decode, Nat.one_shiftLeft]
  obtain ⟨t, row⟩ := c
  cases kind.tables[value % 2 ^ kind.tagBits]? with
  | none => simp
  | some t' => simp [eq_comm (a := row)]

/-- The only fault is a tag without a table, and it is reported with its family. -/
theorem decode_eq_error : kind.decode value = .error fault ↔
    kind.tables.length ≤ value % 2 ^ kind.tagBits ∧
      fault = .badTag (value % 2 ^ kind.tagBits) kind := by
  rw [decode, Nat.one_shiftLeft, ← List.getElem?_eq_none_iff]
  cases kind.tables[value % 2 ^ kind.tagBits]? with
  | none => simp [eq_comm]
  | some t => simp

theorem tag_lt (hTable : kind.tables[tag]? = some t) : tag < 2 ^ kind.tagBits :=
  Nat.lt_of_lt_of_le (List.getElem?_eq_some_iff.1 hTable).1 kind.length_le

/-- A row with a tag below it, as a sum. -/
theorem tagged_eq (hTable : kind.tables[tag]? = some t) (row : Nat) :
    row <<< kind.tagBits ||| tag = row * 2 ^ kind.tagBits + tag := by
  rw [← Nat.shiftLeft_add_eq_or_of_lt (tag_lt hTable), Nat.shiftLeft_eq]

/-- What is put together from a row and a tag is taken apart again. -/
theorem decode_tagged (hTable : kind.tables[tag]? = some t) (row : Nat) :
    kind.decode (row <<< kind.tagBits ||| tag) = .ok ⟨t, row⟩ := by
  have hTag := tag_lt hTable
  have hPos : 0 < 2 ^ kind.tagBits := Nat.two_pow_pos _
  rw [decode_eq_ok, tagged_eq hTable, Nat.shiftRight_eq_div_pow, Nat.mul_comm, Nat.mul_add_mod,
    Nat.mod_eq_of_lt hTag, Nat.mul_add_div hPos, Nat.div_eq_of_lt hTag, Nat.add_zero]
  exact ⟨hTable, rfl⟩

end CodedKind

namespace Widths

variable {w : Widths} {kind : CodedKind} {tag row : Nat} {t : TableId}

/-- A table that is listed without rows counts one bit, so the bound has to be positive. -/
theorem rowBits_le_iff {bits : Nat} (hPos : 1 ≤ bits) :
    w.rowBits t ≤ bits ↔ w.rows t < 2 ^ bits := by
  unfold rowBits rows
  cases w.rows? t with
  | none => simp
  | some n =>
      rw [Option.getD_some]
      by_cases hZero : n = 0
      · subst hZero
        exact iff_of_true hPos (Nat.two_pow_pos _)
      · exact Nat.log2_lt hZero

/-- Two bytes are enough exactly if the rows of all tables of the family fit beside the tag. -/
theorem codedBits_le_iff :
    w.codedBits kind ≤ 16 ↔ ∀ t ∈ kind.tables, w.rows t < 2 ^ (16 - kind.tagBits) := by
  have hTag := kind.tagBits_le
  have hBits : w.codedBits kind ≤ 16 ↔
      (kind.tables.map w.rowBits).foldl max 0 ≤ 16 - kind.tagBits := by
    unfold codedBits
    omega
  rw [hBits, foldl_max_le_iff, List.forall_mem_map, and_iff_right (Nat.zero_le _)]
  exact forall₂_congr fun t _ => rowBits_le_iff (by omega)

theorem columnSize_coded :
    w.columnSize (.coded kind) = if w.codedBits kind ≤ 16 then 2 else 4 := by
  change (if decide (16 < w.codedBits kind) then 4 else 2) = _
  by_cases hBits : w.codedBits kind ≤ 16
  · rw [if_pos hBits, if_neg (by simpa using hBits)]
  · rw [if_neg hBits, if_pos (by simpa using hBits)]

/-- Every row that a coded index can refer to fits its column. -/
theorem tagged_lt (hTable : kind.tables[tag]? = some t) (hRow : row ≤ w.rows t)
    (hRows : w.rows t ≤ TableStream.maxRows) :
    row <<< kind.tagBits ||| tag < byteRange (w.columnSize (.coded kind)) := by
  have hTag := CodedKind.tag_lt hTable
  have hFits : ∀ bits, row < 2 ^ bits →
      row <<< kind.tagBits ||| tag < 2 ^ (bits + kind.tagBits) := by
    intro bits hBits
    have hLess : (row + 1) * 2 ^ kind.tagBits ≤ 2 ^ bits * 2 ^ kind.tagBits :=
      Nat.mul_le_mul_right _ hBits
    rw [Nat.add_mul, Nat.one_mul, ← Nat.pow_add] at hLess
    rw [CodedKind.tagged_eq hTable]
    omega
  have hTagBits := kind.tagBits_le
  rw [columnSize_coded]
  split
  · rename_i hSmall
    have hLess := codedBits_le_iff.1 hSmall t (List.mem_of_getElem? hTable)
    have hWord := hFits (16 - kind.tagBits) (Nat.lt_of_le_of_lt hRow hLess)
    rwa [Nat.sub_add_cancel (by omega)] at hWord
  · have hLess : row < 2 ^ 24 := Nat.lt_succ_of_le (Nat.le_trans hRow hRows)
    have hWide : 2 ^ (24 + kind.tagBits) ≤ 2 ^ 32 :=
      Nat.pow_le_pow_right Nat.two_pos (by omega)
    exact Nat.lt_of_lt_of_le (hFits 24 hLess) hWide

/-- A column of coded indexes is two bytes wide exactly if all of its tables are small enough. Every
row up to the last one of a table fits the column with its tag, and is found again, with its token.
Values are refused for their tags only. -/
theorem codedColumn_exact {counts : List (TableId × Nat)} (hRows : ∀ c ∈ counts, c.2 ≤ 0xFFFFFF)
    (heapSizes : Nat) (kind : CodedKind) :
    ((ofCounts counts heapSizes).columnSize (.coded kind) = 2 ↔
      ∀ t ∈ kind.tables, (ofCounts counts heapSizes).rows t < 2 ^ (16 - kind.tagBits)) ∧
    (∀ tag t, kind.tables[tag]? = some t → ∀ row ≤ (ofCounts counts heapSizes).rows t,
      row <<< kind.tagBits ||| tag
          < byteRange ((ofCounts counts heapSizes).columnSize (.coded kind)) ∧
        kind.decode (row <<< kind.tagBits ||| tag) = .ok ⟨t, row⟩ ∧
        (CodedIndex.mk t row).token.table = t.number ∧ (CodedIndex.mk t row).token.row = row) ∧
    ∀ value fault, kind.decode value = .error fault ↔
      kind.tables.length ≤ value % 2 ^ kind.tagBits ∧
        fault = .badTag (value % 2 ^ kind.tagBits) kind := by
  refine ⟨?_, fun tag t hTable row hRow => ?_, fun _ _ => CodedKind.decode_eq_error⟩
  · rw [← codedBits_le_iff, columnSize_coded]
    split <;> simp [*]
  · have hMax := rows_ofCounts_le hRows heapSizes t
    refine ⟨tagged_lt hTable hRow hMax, CodedKind.decode_tagged hTable row,
      CodedIndex.table_token _, ?_⟩
    rw [CodedIndex.row_token]
    exact Nat.mod_eq_of_lt (Nat.lt_succ_of_le (Nat.le_trans hRow hMax))

/-- Parents of members have three bits of tag, so a table of 2 ^ 13 types is the first one that is
too large for two bytes. -/
theorem codedColumn_exact_manyTypes : (∀ c ∈ [(TableId.typeRef, 0x2000)], c.2 ≤ 0xFFFFFF) ∧
    (ofCounts [(.typeRef, 0x2000)] 0).columnSize (.coded .memberRefParent) ≠ 2 ∧
    0x10001 < byteRange ((ofCounts [(.typeRef, 0x2000)] 0).columnSize (.coded .memberRefParent)) ∧
    CodedKind.memberRefParent.decode 0x10001 = .ok ⟨.typeRef, 0x2000⟩ ∧
    CodedKind.memberRefParent.decode 0x10007 = .error (.badTag 7 .memberRefParent) := by
  have hRows : ∀ c ∈ [(TableId.typeRef, 0x2000)], c.2 ≤ 0xFFFFFF := by decide
  have hCount : (ofCounts [(.typeRef, 0x2000)] 0).rows .typeRef = 0x2000 := by decide +kernel
  obtain ⟨hTwo, hEach, hRefused⟩ := codedColumn_exact hRows 0 .memberRefParent
  obtain ⟨hFits, hDecode, _⟩ := hEach 1 .typeRef rfl 0x2000 (Nat.le_of_eq hCount.symm)
  refine ⟨hRows, fun hSize => ?_, hFits, hDecode, (hRefused _ _).2 ⟨by decide, rfl⟩⟩
  have hLess := hTwo.1 hSize .typeRef (by decide)
  rw [hCount] at hLess
  exact absurd hLess (by decide)

end Widths

end IlSplice
