import IlSplice.Module.Load
import IlSplice.Proofs.Tables.Coded

/-! The rows that the tokens of callees refer to. A name that is found is the name of such a row.
Only the rows of generic instances can be too large for a token, and then another row is named. -/

namespace IlSplice

open Bytes

/-- Every coded index among the columns of a row has a tag of its family. -/
def TableId.Tagged (t : TableId) (columns : List Nat) : Prop :=
  ∀ kind value, (Column.coded kind, value) ∈ t.columns.zip columns →
    ∃ c, kind.decode value = .ok c

namespace Streams

variable {s : Streams} {token : Token} {t : TableId} {row : Nat} {name : String}

/-- The row is there, and its column of a name refers to the text. -/
def Named (s : Streams) (t : TableId) (row : Nat) (name : String) : Prop :=
  (1 ≤ row ∧ row ≤ s.tables.rows t) ∧ ∃ columns offset,
    s.tables.readRow t row = .ok columns ∧ t.Tagged columns ∧
      columns[t.columns.idxOf .name]? = some offset ∧ s.names.get offset = .ok name

/-- The row that the token of a callee refers to: its own one, or for an instance of a generic
method the one in the column of the method. There, the lowest bit tells the table and the others
are the row. -/
inductive Designates (s : Streams) (token : Token) : TableId → Nat → Prop
  | method (hTable : token.table = Token.methodDefTable) : s.Designates token .methodDef token.row
  | member (hTable : token.table = Token.memberRefTable) : s.Designates token .memberRef token.row
  | generic {value instantiation : Nat} {t : TableId}
      (hTable : token.table = Token.methodSpecTable)
      (hRow : s.tables.readRow .methodSpec token.row = .ok [value, instantiation])
      (hTag : [TableId.methodDef, .memberRef][value % 2]? = some t) :
      s.Designates token t (value >>> 1)

/-- A record of a row leads to the name of the row, if it has the right column for the name. -/
theorem get_name_eq_ok {α : Type} [TableRow α] {nameOf : α → Nat}
    (hColumns : ∀ columns offset, columns.length = (TableRow.table α).columns.length →
      ((∃ a : α, TableRow.ofColumns columns = .ok a ∧ nameOf a = offset) ↔
        (TableRow.table α).Tagged columns ∧
          columns[(TableRow.table α).columns.idxOf .name]? = some offset)) :
    (s.tables.get α row >>= fun a => s.names.get (nameOf a)) = .ok name ↔
      s.Named (TableRow.table α) row name := by
  rw [Except.bind_eq_ok]
  constructor
  · rintro ⟨a, hGet, hName⟩
    obtain ⟨columns, hRow, hRecord⟩ := Except.bind_eq_ok.1 hGet
    obtain ⟨hInside, hLength⟩ := TableStream.row_of_readRow hRow
    obtain ⟨hTags, hOffset⟩ := (hColumns columns (nameOf a) hLength).1 ⟨a, hRecord, rfl⟩
    exact ⟨hInside, columns, nameOf a, hRow, hTags, hOffset, hName⟩
  · rintro ⟨-, columns, offset, hRow, hTags, hOffset, hName⟩
    have hLength := (TableStream.row_of_readRow hRow).2
    obtain ⟨a, hRecord, rfl⟩ := (hColumns columns offset hLength).2 ⟨hTags, hOffset⟩
    exact ⟨a, Except.bind_eq_ok.2 ⟨columns, hRow, hRecord⟩, hName⟩

/-- For methods and members a name is found exactly if the row names it. -/
theorem memberName_eq_ok (hCallee : t ∈ [TableId.methodDef, .memberRef])
    (hTable : token.table = t.number) :
    s.memberName token = .ok name ↔ s.Named t token.row name := by
  rw [List.mem_pair] at hCallee
  unfold memberName
  rcases hCallee with rfl | rfl
  · rw [if_pos (show token.table = Token.methodDefTable from hTable)]
    refine get_name_eq_ok fun columns offset hLength => ?_
    have hSix : columns.length = 6 := hLength
    match columns, hSix with
    | [rva, implFlags, flags, name, signature, paramList], _ =>
        simp [TableRow.ofColumns, TableRow.table, TableId.Tagged, TableId.columns]
  · rw [if_neg (by rw [hTable]; decide),
      if_pos (show token.table = Token.memberRefTable from hTable)]
    refine get_name_eq_ok fun columns offset hLength => ?_
    have hThree : columns.length = 3 := hLength
    match columns, hThree with
    | [parent, name, signature], _ =>
        simp only [TableRow.ofColumns, bind_pure_comp, Except.map_eq_ok]
        simp [TableRow.table, TableId.Tagged, TableId.columns]

/-- The row of a generic instance, where both tags of the method are in use. -/
theorem get_methodSpec_eq_ok {r : MethodSpecRow} : s.tables.get MethodSpecRow row = .ok r ↔
    ∃ value, s.tables.readRow .methodSpec row = .ok [value, r.instantiation] ∧
      [TableId.methodDef, .memberRef][value % 2]? = some r.method.table ∧
      r.method.row = value >>> 1 := by
  refine Except.bind_eq_ok.trans ⟨?_, ?_⟩
  · rintro ⟨columns, hRow, hRecord⟩
    match columns, (TableStream.row_of_readRow hRow).2 with
    | [value, instantiation], _ =>
        obtain ⟨c, hDecode, hRecord⟩ := Except.bind_eq_ok.1 hRecord
        cases hRecord
        exact ⟨value, hRow, CodedKind.decode_eq_ok.1 hDecode⟩
  · rintro ⟨value, hRow, hMethod⟩
    exact ⟨_, hRow, Except.bind_eq_ok.2 ⟨r.method, CodedKind.decode_eq_ok.2 hMethod, rfl⟩⟩

/-- What is found is the name of the row, as far as a token has room for the row. -/
theorem Designates.methodName_eq_ok (h : s.Designates token t row) :
    s.methodName token = .ok name ↔ s.Named t (row % 0x1000000) name := by
  unfold methodName
  cases h with
  | method hTable =>
      rw [if_neg (by rw [hTable]; decide), Nat.mod_eq_of_lt token.row_lt]
      exact memberName_eq_ok (by simp) hTable
  | member hTable =>
      rw [if_neg (by rw [hTable]; decide), Nat.mod_eq_of_lt token.row_lt]
      exact memberName_eq_ok (by simp) hTable
  | @generic value instantiation _ hTable hRow hTag =>
      have hGet : s.tables.get MethodSpecRow token.row = pure ⟨⟨t, value >>> 1⟩, instantiation⟩ :=
        get_methodSpec_eq_ok.2 ⟨value, hRow, hTag, rfl⟩
      rw [if_pos hTable, hGet, pure_bind,
        memberName_eq_ok (List.mem_of_getElem? hTag) (CodedIndex.table_token _),
        CodedIndex.row_token]

/-- A name that was found is that of some row, which the token designates. -/
theorem exists_designates (hName : s.methodName token = .ok name) :
    ∃ t row, s.Designates token t row := by
  unfold methodName at hName
  split at hName
  · rename_i hTable
    obtain ⟨r, hGet, -⟩ := Except.bind_eq_ok.1 hName
    obtain ⟨value, hRow, hTag, -⟩ := get_methodSpec_eq_ok.1 hGet
    exact ⟨_, _, .generic hTable hRow hTag⟩
  · unfold memberName at hName
    split at hName
    · exact ⟨_, _, .method ‹_›⟩
    · split at hName
      · exact ⟨_, _, .member ‹_›⟩
      · cases hName

/-- A coded index has the token of its row, and a callee has the name of the row that its token
refers to, as far as the row has room in a token. Where there is no such row, nothing is found. -/
theorem methodName_designated (s : Streams) :
    (∀ kind value c, CodedKind.decode kind value = .ok c →
      c.token.table = c.table.number ∧ (c.token.row = c.row ↔ c.row ≤ 0xFFFFFF)) ∧
    (∀ token name, s.methodName token = .ok name → ∃ t row, s.Designates token t row ∧
      (row ≤ 0xFFFFFF → s.Named t row name)) ∧
    (∀ token t row, s.Designates token t row → row ≤ 0xFFFFFF →
      (∀ name, s.Named t row name → s.methodName token = .ok name) ∧
      (row = 0 ∨ s.tables.rows t < row → ∃ fault, s.methodName token = .error fault)) := by
  have hMod : ∀ {row : Nat}, row ≤ 0xFFFFFF → row % 0x1000000 = row :=
    fun hRow => Nat.mod_eq_of_lt (Nat.lt_succ_of_le hRow)
  refine ⟨fun kind value c _ => ⟨c.table_token, ?_⟩, fun token name hName => ?_,
    fun token t row h hRow => ⟨fun name hNamed => ?_, fun hOutside => ?_⟩⟩
  · rw [c.row_token]
    omega
  · obtain ⟨t, row, h⟩ := exists_designates hName
    refine ⟨t, row, h, fun hRow => ?_⟩
    have hNamed := h.methodName_eq_ok.1 hName
    rwa [hMod hRow] at hNamed
  · rw [h.methodName_eq_ok, hMod hRow]
    exact hNamed
  · cases hName : s.methodName token with
    | error fault => exact ⟨fault, rfl⟩
    | ok name =>
        have hNamed := h.methodName_eq_ok.1 hName
        rw [hMod hRow] at hNamed
        have := hNamed.1
        omega

/-- A heap with the one name "A". -/
def oneName : Identifiers := ⟨#[0, 0x41, 0]⟩

theorem get_oneName : oneName.get 1 = .ok "A" :=
  Except.toOption_eq_some.1 (by decide +kernel)

/-- Two instances of generic methods. The method of the first one is the only member of another
type, that of the second one is missing. -/
def twoGenerics : Bytes := #[
  0, 0, 0, 0, 2, 0, 0, 1, 0, 4, 0, 0, 0, 8, 0, 0, 0, 0, 0, 0, 0, 0, 0, 0,
  1, 0, 0, 0, 2, 0, 0, 0,
  9, 0, 1, 0, 7, 0,
  3, 0, 0, 0,
  5, 0, 0, 0]

/-- Both instances are designated, but the method of the second one is missing. This is a fault and
not another name. -/
theorem methodName_designated_twoGenerics : ∃ s : Streams,
    TableStream.ofBytes twoGenerics = .ok s.tables ∧
    s.Designates ⟨0x2B000001⟩ .memberRef 1 ∧ s.methodName ⟨0x2B000001⟩ = .ok "A" ∧
    s.Designates ⟨0x2B000002⟩ .memberRef 2 ∧ ∃ fault, s.methodName ⟨0x2B000002⟩ = .error fault := by
  have hRows : (TableStream.ofBytes twoGenerics).toOption.map (fun tables =>
      (tables.rows .memberRef, (tables.readRow .memberRef 1).toOption,
        (tables.readRow .methodSpec 1).toOption, (tables.readRow .methodSpec 2).toOption))
      = some (1, some [9, 1, 7], some [3, 0], some [5, 0]) := by decide +kernel
  obtain ⟨tables, hSome, hRows⟩ := Option.map_eq_some_iff.1 hRows
  simp only [Prod.mk.injEq, Except.toOption_eq_some] at hRows
  obtain ⟨hCount, hMember, hFirst, hSecond⟩ := hRows
  have hKnown : Designates ⟨tables, oneName, none⟩ ⟨0x2B000001⟩ .memberRef 1 :=
    @Designates.generic _ _ 3 0 _ rfl hFirst rfl
  have hMissing : Designates ⟨tables, oneName, none⟩ ⟨0x2B000002⟩ .memberRef 2 :=
    @Designates.generic _ _ 5 0 _ rfl hSecond rfl
  have hNamed : Named ⟨tables, oneName, none⟩ .memberRef 1 "A" := by
    refine ⟨⟨Nat.le_refl _, Nat.le_of_eq hCount.symm⟩, _, _, hMember, ?_, rfl, get_oneName⟩
    simp only [TableId.Tagged, TableId.columns, List.zip_cons_cons]
    simpa using ⟨⟨.typeRef, 1⟩, rfl⟩
  obtain ⟨-, -, hEach⟩ := methodName_designated ⟨tables, oneName, none⟩
  exact ⟨_, Except.toOption_eq_some.1 hSome, hKnown, (hEach _ _ _ hKnown (by decide)).1 _ hNamed,
    hMissing, (hEach _ _ _ hMissing (by decide)).2 (.inr (hCount ▸ Nat.lt_succ_self 1))⟩

/-- The front of a stream with one method, with members of other types and with one instance of a
generic method, up to the end of the method. -/
def oneMethod : Bytes := #[
  0, 0, 0, 0, 2, 0, 0, 1, 0x40, 4, 0, 0, 0, 8, 0, 0, 0, 0, 0, 0, 0, 0, 0, 0,
  1, 0, 0, 0, 0, 0x80, 0, 0, 1, 0, 0, 0,
  0x50, 0x20, 0, 0, 0, 0, 0x86, 0, 1, 0, 0, 0, 1, 0]

/-- The stream with zeros as its members. There are so many of them that the generic method has a
column of four bytes, and its row is beyond all tokens. -/
def wideGeneric (zeros : Nat) : Bytes :=
  oneMethod ++ Array.replicate zeros 0 ++ #[2, 0, 0, 2, 0, 0]

/-- The widths of its columns, with members of six bytes each. -/
def wideWidths : Widths :=
  .ofCounts [(.methodDef, 1), (.memberRef, 0x8000), (.methodSpec, 1)] 0

/-- However many members there are, the method in front of them is not touched. -/
theorem agree_wideGeneric (zeros : Nat) : oneMethod.Agree (wideGeneric zeros) 0 50 := by
  rw [wideGeneric, Array.append_assoc]
  exact agree_append oneMethod _

/-- The number of members stays a variable, since nothing should ever go through all of them. -/
theorem ofBytes_wideGeneric {zeros : Nat} (hZeros : zeros = 0x30000) : ∃ tables,
    TableStream.ofBytes (wideGeneric zeros) = .ok tables ∧ tables.widths = wideWidths ∧
      tables.offsets = (wideWidths.starts 36 TableId.all).toArray := by
  have hAgree := agree_wideGeneric zeros
  have hSize : (wideGeneric zeros).size = 50 + zeros + 6 := by
    rw [wideGeneric, Array.size_append, Array.size_append, Array.size_replicate]
    rfl
  have hValid : (wideGeneric zeros).uintAt 8 8 = 0x80000000440 :=
    (hAgree.mono (by decide) (by decide) : oneMethod.Agree _ 8 (8 + 8)).symm.uintAt
  have hHeaps : (wideGeneric zeros).uintAt 6 1 = 0 :=
    (hAgree.mono (by decide) (by decide) : oneMethod.Agree _ 6 (6 + 1)).symm.uintAt
  have hFront : TableStream.scanCounts (TableStream.tablesOf 0x80000000440) oneMethod 24
      = .ok [(.methodDef, 1), (.memberRef, 0x8000), (.methodSpec, 1)] 36 := rfl
  have hCounts := (TableStream.local_scanCounts _).congr hFront
    (hAgree.mono (by decide) (by decide)) (by omega)
  have hPlace : TableStream.place wideWidths (wideGeneric zeros).size TableId.all 36 #[]
      = .ok (wideWidths.starts 36 TableId.all).toArray := by
    rw [hSize, hZeros]
    exact Except.toOption_eq_some.1 (by decide +kernel)
  rw [← hValid] at hCounts
  have hTables := TableStream.exists_ofBytes (by omega) (by rw [hValid]; decide) hCounts
    (by rw [hHeaps]; exact hPlace)
  rwa [hHeaps] at hTables

/-- The only method has the name "A", and the only instance refers to row 0x1000001. -/
theorem readRow_wideGeneric {zeros : Nat} (hZeros : zeros = 0x30000) : ∃ tables,
    TableStream.ofBytes (wideGeneric zeros) = .ok tables ∧ tables.rows .methodDef = 1 ∧
      tables.readRow .methodDef 1 = .ok [0x2050, 0, 0x86, 1, 0, 1] ∧
      tables.readRow .methodSpec 1 = .ok [0x2000002, 0] := by
  obtain ⟨tables, hRead, hWidths, hOffsets⟩ := ofBytes_wideGeneric hZeros
  obtain ⟨start, hFrom⟩ := TableStream.readFrom_of_ofBytes hRead
  have hFirst : ∀ t first, wideWidths.rows t = 1 →
      (wideWidths.starts 36 TableId.all)[t.number]? = some first →
        tables.readRow t 1 = .ok (wideWidths.columnsAt (wideGeneric zeros) t.columns first) := by
    intro t first hOne hStart
    have hSpan : (tables.rowSpan t 1).start = first := by
      simp [TableStream.rowSpan, TableStream.tableOffset, hOffsets, hStart]
    have hRows : tables.rows t = 1 := (congrArg (Widths.rows · t) hWidths).trans hOne
    rw [hFrom.readRow_eq Nat.one_ne_zero (Nat.le_of_eq hRows.symm), hSpan, hWidths]
  have hEnd : (wideGeneric zeros).Holds (50 + zeros) ([2, 0, 0, 2] ++ [0, 0]) := by
    have hLast := holds_end (oneMethod ++ Array.replicate zeros 0) #[2, 0, 0, 2, 0, 0]
    rwa [Array.size_append, Array.size_replicate] at hLast
  obtain ⟨hMethod, hInstantiation⟩ := holds_append.1 hEnd
  refine ⟨tables, hRead, (congrArg (Widths.rows · _) hWidths).trans (by decide +kernel), ?_, ?_⟩
  · have hAgree := (agree_wideGeneric zeros).mono (Nat.zero_le 36)
      (show 36 + wideWidths.totalSize TableId.methodDef.columns ≤ 50 by decide +kernel)
    rw [hFirst .methodDef 36 (by decide +kernel) (by decide +kernel),
      ← Widths.columnsAt_congr hAgree]
    decide +kernel
  · rw [hFirst .methodSpec (50 + zeros) (by decide +kernel) (by rw [hZeros]; decide +kernel)]
    exact congrArg₂ (fun value instantiation => Except.ok [value, instantiation])
      hMethod.uintAt hInstantiation.uintAt

/-- An instance of a method in a row that does not exist, beyond all tokens, is taken for one of the
method whose row has the same low bits. -/
theorem misnamed_of_wideRow : ¬ ∀ (data names : Bytes) (s : Streams) (token : Token)
    (name : String), TableStream.ofBytes data = .ok s.tables →
      Identifiers.ofBytes names = .ok s.names → s.methodName token = .ok name →
        ∃ t row, s.Designates token t row ∧ s.Named t row name := by
  intro hNames
  -- The number is kept apart, since nothing should ever count up to it.
  obtain ⟨zeros, hZeros⟩ : ∃ zeros, zeros = 0x30000 := ⟨_, rfl⟩
  obtain ⟨tables, hRead, hRows, hMethod, hInstance⟩ := readRow_wideGeneric hZeros
  have hWide : Designates ⟨tables, oneName, none⟩ ⟨0x2B000001⟩ .methodDef 0x1000001 :=
    @Designates.generic _ _ 0x2000002 0 _ rfl hInstance rfl
  have hNamed : Named ⟨tables, oneName, none⟩ .methodDef 1 "A" := by
    refine ⟨⟨Nat.le_refl _, Nat.le_of_eq hRows.symm⟩, _, _, hMethod, ?_, rfl, get_oneName⟩
    simp [TableId.Tagged, TableId.columns]
  obtain ⟨t, row, hDesignates, hInside, -⟩ := hNames _ _ ⟨tables, oneName, none⟩ _ "A" hRead
    (show Identifiers.ofBytes oneName.data = _ from rfl) (hWide.methodName_eq_ok.2 hNamed)
  cases hDesignates with
  | method hTable | member hTable => revert hTable; decide
  | @generic value instantiation _ _ hRow hTag =>
      obtain ⟨rfl, -⟩ : 0x2000002 = value ∧ 0 = instantiation := by
        simpa using hInstance.symm.trans hRow
      cases hTag
      rw [hRows] at hInside
      revert hInside
      decide

end Streams

end IlSplice
