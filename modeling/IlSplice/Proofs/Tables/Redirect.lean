import IlSplice.Metadata.Rebuilt
import IlSplice.Proofs.Tables.Stream

/-! Methods with new addresses. One column of their rows changes, and all other columns of all
tables are what they were. -/

namespace IlSplice.TableStream

open Bytes

variable {s s' : TableStream} {data out other : Bytes} {redirects : List Redirect}
  {start start' : Nat}

/-- The column of a method's row that says where its body is. -/
def redirectField (s : TableStream) (r : Redirect) : Field :=
  ⟨(s.rowSpan .methodDef r.row).start, leBytes 4 r.rva.toNat⟩

/-- Only the addresses of rows that are there are overwritten. -/
theorem redirect_eq_ok (hRedirect : s.redirect data redirects = .ok out) :
    Overwrites data (redirects.map s.redirectField) out ∧
      ∀ r ∈ redirects, r.row ≠ 0 ∧ r.row ≤ s.rows .methodDef := by
  induction redirects generalizing data with
  | nil =>
      cases hRedirect
      exact ⟨.nil, by simp⟩
  | cons r rest ih =>
      rw [redirect] at hRedirect
      obtain ⟨offset, hOffset, hColumn⟩ := Except.bind_eq_ok.1 hRedirect
      dsimp only at hColumn
      obtain ⟨middle, hMiddle, hOthers⟩ := Except.bind_eq_ok.1 hColumn
      obtain ⟨hZero, hRow, rfl⟩ := rowOffset_eq_ok hOffset
      obtain ⟨hRest, hRows⟩ := ih hOthers
      rw [List.forall_mem_cons]
      exact ⟨.cons hMiddle hRest, ⟨hZero, hRow⟩, hRows⟩

/-- The column is the first one of the row. -/
theorem span_redirectField (s : TableStream) (r : Redirect) :
    (s.redirectField r).span.start = (s.rowSpan .methodDef r.row).start ∧
      (s.redirectField r).span.stop = (s.rowSpan .methodDef r.row).start + 4 ∧
      (s.rowSpan .methodDef r.row).start + 4 ≤ (s.rowSpan .methodDef r.row).stop := by
  refine ⟨rfl, by simp [Field.span, redirectField], Nat.add_le_add_left ?_ _⟩
  exact Nat.le_add_right 4 _

/-- The column is apart from all other rows. -/
theorem apart_redirectField (hOld : s.ReadFrom data start) {r : Redirect} (hZero : r.row ≠ 0)
    (hRow : r.row ≤ s.rows .methodDef) {t : TableId} {row : Nat} (hZero' : row ≠ 0)
    (hRow' : row ≤ s.rows t) (hOther : t = .methodDef → row ≠ r.row) :
    (s.redirectField r).span.Apart (s.rowSpan t row) := by
  obtain ⟨hFirst, hLast, hWide⟩ := s.span_redirectField r
  have hApart := hOld.apart hZero' hRow' hZero hRow hOther
  exact (hApart.mono (Nat.le_of_eq hFirst.symm) (by omega)).symm

/-- Whatever is apart from the columns of these methods stays as it is. -/
theorem agree_of_apart (hRedirect : s.redirect data redirects = .ok out) (span : Span)
    (hApart : ∀ r ∈ redirects, r.row ≠ 0 → r.row ≤ s.rows .methodDef →
      (s.redirectField r).span.Apart span) : data.Agree out span.start span.stop := by
  obtain ⟨hWrites, hRows⟩ := redirect_eq_ok hRedirect
  refine hWrites.agree fun f hField => ?_
  obtain ⟨r, hMem, rfl⟩ := List.mem_map.1 hField
  obtain ⟨hZero, hRow⟩ := hRows r hMem
  exact hApart r hMem hZero hRow

/-- The header stays as it is. -/
theorem agree_of_redirect (hOld : s.ReadFrom data start)
    (hRedirect : s.redirect data redirects = .ok out) : data.Agree out 0 start :=
  agree_of_apart hRedirect ⟨0, start⟩ fun _ _ hZero hRow =>
    .inr (hOld.rowSpan_inside hZero hRow).1

/-- The tables afterwards, read from data that goes on with other bytes. -/
theorem layout_of_redirect (hOld : s.ReadFrom data start) (hNew : s'.ReadFrom other start')
    (hRedirect : s.redirect data redirects = .ok out) (hAgree : out.Agree other 0 out.size)
    (hSize : out.size ≤ other.size) :
    s'.widths = s.widths ∧ (∀ t, s'.rows t = s.rows t) ∧
      ∀ t row, s'.rowSpan t row = s.rowSpan t row := by
  have hSame := (redirect_eq_ok hRedirect).1.size_eq
  have hStart := hOld.start_le
  obtain ⟨hWidths, hOffsets⟩ := hOld.layout_eq hNew ((agree_of_redirect hOld hRedirect).trans
    (hAgree.mono (Nat.le_refl _) (by omega))) (by omega)
  refine ⟨hWidths, fun t => ?_, fun t row => ?_⟩
  · rw [rows, rows, hWidths]
  · rw [rowSpan, rowSpan, tableOffset, tableOffset, hWidths, hOffsets]

/-- A row that no redirect names is what it was. -/
theorem readRow_of_redirect (hOld : s.ReadFrom data start) (hNew : s'.ReadFrom other start')
    (hRedirect : s.redirect data redirects = .ok out) (hAgree : out.Agree other 0 out.size)
    (hSize : out.size ≤ other.size) {t : TableId} {row : Nat}
    (hOther : ∀ r ∈ redirects, t = .methodDef → row ≠ r.row) :
    s'.readRow t row = s.readRow t row := by
  obtain ⟨hWidths, hCount, hSpan⟩ := layout_of_redirect hOld hNew hRedirect hAgree hSize
  by_cases hRange : row = 0 ∨ s.rows t < row
  · rw [readRow_of_outside hRange, readRow_of_outside (by rwa [hCount])]
  rw [not_or, Nat.not_lt] at hRange
  obtain ⟨hZero, hRow⟩ := hRange
  have hInside := (hOld.rowSpan_inside hZero hRow).2
  have hSame := (redirect_eq_ok hRedirect).1.size_eq
  have hRest := agree_of_apart hRedirect (s.rowSpan t row) fun r hMem hZero' hRow' =>
    apart_redirectField hOld hZero' hRow' hZero hRow (hOther r hMem)
  rw [hOld.readRow_eq hZero hRow, hNew.readRow_eq hZero (hCount t ▸ hRow), hWidths, hSpan]
  congr 1
  exact (Widths.columnsAt_congr (hRest.trans (hAgree.mono (Nat.zero_le _)
    (hSame ▸ hInside)))).symm

/-- The last of the new addresses that a method gets is what its row says. -/
theorem holds_of_redirect {before after : List Redirect} {r : Redirect}
    (hOld : s.ReadFrom data start) (hRedirect : s.redirect data (before ++ r :: after) = .ok out)
    (hLast : ∀ r' ∈ after, r'.row ≠ r.row) :
    out.Holds (s.rowSpan .methodDef r.row).start (leBytes 4 r.rva.toNat) := by
  obtain ⟨hWrites, hRows⟩ := redirect_eq_ok hRedirect
  obtain ⟨hZero, hRow⟩ := hRows r (by simp)
  obtain ⟨hStart, hStop, hWide⟩ := s.span_redirectField r
  rw [List.map_append, List.map_cons] at hWrites
  refine hWrites.holds_of_later (f := s.redirectField r) fun f hField => ?_
  obtain ⟨r', hMem, rfl⟩ := List.mem_map.1 hField
  obtain ⟨hZero', hRow'⟩ := hRows r' (by simp [hMem])
  have hApart := apart_redirectField hOld hZero' hRow' hZero hRow fun _ => (hLast r' hMem).symm
  exact (hApart.mono (Nat.le_of_eq hStart.symm) (by omega)).symm

/-- The row of a method with a new address has this address, and the other columns from before. -/
theorem readRow_redirected {before after : List Redirect} {r : Redirect}
    (hOld : s.ReadFrom data start) (hNew : s'.ReadFrom other start')
    (hRedirect : s.redirect data (before ++ r :: after) = .ok out)
    (hAgree : out.Agree other 0 out.size) (hSize : out.size ≤ other.size)
    (hLast : ∀ r' ∈ after, r'.row ≠ r.row) :
    ∃ rva columns, s.readRow .methodDef r.row = .ok (rva :: columns) ∧
      s'.readRow .methodDef r.row = .ok (r.rva.toNat :: columns) := by
  obtain ⟨hWidths, hCount, hSpan⟩ := layout_of_redirect hOld hNew hRedirect hAgree hSize
  obtain ⟨hWrites, hRows⟩ := redirect_eq_ok hRedirect
  obtain ⟨hZero, hRow⟩ := hRows r (by simp)
  have hInside := (hOld.rowSpan_inside hZero hRow).2
  have hSame := hWrites.size_eq
  obtain ⟨_, _, hWide⟩ := s.span_redirectField r
  rw [hOld.readRow_eq hZero hRow, hNew.readRow_eq hZero (hCount _ ▸ hRow), hWidths, hSpan]
  have hHolds := holds_of_redirect hOld hRedirect hLast
  have hStop : (s.rowSpan .methodDef r.row).stop = (s.rowSpan .methodDef r.row).start + 4
      + s.widths.totalSize (TableId.columns .methodDef).tail := by
    rw [Nat.add_assoc]
    rfl
  generalize hFirst : (s.rowSpan .methodDef r.row).start = first at *
  refine ⟨data.uintAt first 4,
    s.widths.columnsAt data (TableId.columns .methodDef).tail (first + 4), rfl, ?_⟩
  change Except.ok (other.uintAt first 4 ::
    s.widths.columnsAt other (TableId.columns .methodDef).tail (first + 4)) = _
  congr 2
  · have hEnd := hHolds.1
    rw [length_leBytes] at hEnd
    refine (hHolds.congr (hAgree.mono (Nat.zero_le _) ?_) ?_).uintAt_of_lt r.rva.toNat_lt
    all_goals
      rw [length_leBytes]
      omega
  · refine (Widths.columnsAt_congr ((?_ : data.Agree out _ _).trans
      (hAgree.mono (Nat.zero_le _) (by omega)))).symm
    refine agree_of_apart hRedirect ⟨first + 4, first + 4 + _⟩ fun r' hMem hZero' hRow' => ?_
    by_cases hSameRow : r'.row = r.row
    · obtain ⟨_, hOther, _⟩ := s.span_redirectField r'
      rw [hSameRow, hFirst] at hOther
      exact .inl (Nat.le_of_eq hOther)
    · have hApart := apart_redirectField hOld hZero' hRow' hZero hRow fun _ => Ne.symm hSameRow
      exact hApart.mono (by rw [hFirst]; exact Nat.le_add_right _ _) (Nat.le_of_eq hStop.symm)

/-- Methods that there are can all get new addresses. -/
theorem exists_redirect (hOld : s.ReadFrom data start) (redirects : List Redirect)
    (hRows : ∀ r ∈ redirects, r.row ≠ 0 ∧ r.row ≤ s.rows .methodDef) :
    ∃ out, s.redirect data redirects = .ok out := by
  suffices ∀ current : Bytes, current.size = data.size →
      ∃ out, s.redirect current redirects = .ok out from this data rfl
  induction redirects with
  | nil => exact fun current _ => ⟨current, rfl⟩
  | cons r rest ih =>
      rw [List.forall_mem_cons] at hRows
      obtain ⟨⟨hZero, hRow⟩, hRest⟩ := hRows
      intro current hSame
      have hInside := (hOld.rowSpan_inside hZero hRow).2
      obtain ⟨_, _, hWide⟩ := s.span_redirectField r
      have hFits : (s.rowSpan .methodDef r.row).start + (leBytes 4 r.rva.toNat).length
          ≤ current.size := by
        rw [length_leBytes]
        omega
      obtain ⟨out, hOut⟩ := ih hRest (overwrite.write current _ (leBytes 4 r.rva.toNat))
        ((size_write ..).trans hSame)
      exact ⟨out, Except.bind_eq_ok.2 ⟨_, rowOffset_of_le hZero hRow,
        Except.bind_eq_ok.2 ⟨_, if_pos hFits, hOut⟩⟩⟩

/-- The columns of a row after all redirects, of which the last for a method counts. -/
def redirected (redirects : List Redirect) (t : TableId) (row : Nat) (columns : List Nat) :
    List Nat :=
  match redirects.reverse.find? fun r => t = .methodDef ∧ row = r.row with
  | some r => columns.set MethodDefRow.rvaColumn r.rva.toNat
  | none => columns

/-- The redirect that counts has none behind it that names the same method. -/
theorem exists_last {t : TableId} {row : Nat} {r : Redirect}
    (hFind : redirects.reverse.find? (fun r => t = .methodDef ∧ row = r.row) = some r) :
    ∃ before after, redirects = before ++ r :: after ∧ t = .methodDef ∧ row = r.row ∧
      ∀ r' ∈ after, r'.row ≠ r.row := by
  obtain ⟨hHit, after, before, hSplit, hLast⟩ := List.find?_eq_some_iff_append.1 hFind
  obtain ⟨rfl, rfl⟩ : t = .methodDef ∧ row = r.row := by simpa using hHit
  rw [List.reverse_eq_iff, List.reverse_append, List.reverse_cons, List.append_assoc,
    List.singleton_append] at hSplit
  refine ⟨before.reverse, after.reverse, hSplit, rfl, rfl, fun r' hMem hSame => ?_⟩
  simpa [hSame] using hLast r' (List.mem_reverse.1 hMem)

/-- Methods get new addresses, and everything else that the tables say stays. -/
theorem ofBytes_redirect (hRead : ofBytes data = .ok s)
    (hRows : ∀ r ∈ redirects, r.row ≠ 0 ∧ r.row ≤ s.rows .methodDef) :
    ∃ out, s.redirect data redirects = .ok out ∧ ofBytes out = .ok { s with data := out } ∧
      ∀ t row, readRow { s with data := out } t row
        = redirected redirects t row <$> s.readRow t row := by
  obtain ⟨start, hOld⟩ := readFrom_of_ofBytes hRead
  obtain ⟨out, hRedirect⟩ := exists_redirect hOld redirects hRows
  have hAgain := hOld.ofBytes_congr hRead (agree_of_redirect hOld hRedirect)
    (Nat.le_of_eq (redirect_eq_ok hRedirect).1.size_eq.symm)
  obtain ⟨start', hNew⟩ := readFrom_of_ofBytes hAgain
  refine ⟨out, hRedirect, hAgain, fun t row => ?_⟩
  unfold redirected
  cases hFind : redirects.reverse.find? fun r => t = .methodDef ∧ row = r.row with
  | none =>
      refine (readRow_of_redirect hOld hNew hRedirect (fun _ _ _ => rfl) (Nat.le_refl _)
        fun r hMem hTable hRow => ?_).trans (id_map _).symm
      simpa [hTable, hRow] using List.find?_eq_none.1 hFind r (List.mem_reverse.2 hMem)
  | some r =>
      obtain ⟨before, after, rfl, rfl, rfl, hLast⟩ := exists_last hFind
      obtain ⟨rva, columns, hBefore, hAfter⟩ := readRow_redirected hOld hNew hRedirect
        (fun _ _ _ => rfl) (Nat.le_refl _) hLast
      rw [hAfter, hBefore]
      rfl

/-- Two methods in a stream with wide names and with four bytes more in its header. -/
def twoMethods : Bytes := #[
  0, 0, 0, 0, 2, 0, 0x41, 1, 0x40, 0, 0, 0, 0, 0, 0, 0, 0, 0, 0, 0, 0, 0, 0, 0,
  2, 0, 0, 0, 0xFF, 0xFF, 0xFF, 0xFF,
  0x50, 0x20, 0, 0, 0, 0, 0x86, 0, 1, 0, 0, 0, 6, 0, 1, 0,
  0x58, 0x20, 0, 0, 0, 0, 0x86, 0, 7, 0, 0, 0, 6, 0, 1, 0]

/-- Of two redirects of one row the last one counts, as rows are overwritten in order. -/
theorem ofBytes_redirect_twoMethods : ∃ s out, ofBytes twoMethods = .ok s ∧
    s.redirect twoMethods [⟨2, 5⟩, ⟨1, 7⟩, ⟨2, 9⟩] = .ok out ∧
    ofBytes out = .ok { s with data := out } ∧
    readRow { s with data := out } .methodDef 2 = (List.set · 0 9) <$> s.readRow .methodDef 2 := by
  have hRead : (ofBytes twoMethods).toOption.map (·.rows .methodDef) = some 2 := by decide +kernel
  obtain ⟨s, hSome, hTwo⟩ := Option.map_eq_some_iff.1 hRead
  have hTables := Except.toOption_eq_some.1 hSome
  have hRows : ∀ r ∈ [⟨2, 5⟩, ⟨1, 7⟩, (⟨2, 9⟩ : Redirect)],
      r.row ≠ 0 ∧ r.row ≤ s.rows .methodDef := by simp [hTwo]
  obtain ⟨out, hRedirect, hAgain, hColumns⟩ := ofBytes_redirect hTables hRows
  exact ⟨s, out, hTables, hRedirect, hAgain, hColumns .methodDef 2⟩

end IlSplice.TableStream
