import IlSplice.Proofs.Machine.Body
import IlSplice.Proofs.Machine.Headers
import IlSplice.Proofs.Machine.Heaps
import IlSplice.Proofs.Machine.Rows

/-! Data from anywhere. Whatever the bytes are, reading them in words ends as reading them with
unbounded numbers does, in a value or in a fault. No reader leaves its words or its data. -/

namespace IlSplice

open Machine

/-- Rows of a table are looked up as records without a trap. -/
def Tables.GetChecked (s : Slice) (α : Type) [TableRow α] [IndexedRow α] : Prop :=
  ∀ row, (Tables.read s >>= fun t => t.get α row)
    = ofChecked (TableStream.ofBytes s.bytes >>= fun st => st.get α row)

/-- All that can be read of data is a checked result: a value or a fault, and never a trap. -/
structure Slice.ReadChecked (s : Slice) (resolver : Resolver) : Prop where
  cliHeader : CliHeader.read s = ofChecked (CliHeader.ofBytes s.bytes)
  root : Root.read s = ofChecked (Root.ofBytes s.bytes)
  /-- Streams of an accepted root end inside the metadata. -/
  stream_le : ∀ root, Root.read s = .ok root → ∀ e ∈ root.streams,
    e.offset.toNat + e.size.toNat ≤ s.bytes.size
  /-- The checks of a stream do not fail either when the data is a whole file. -/
  stream : ∀ image : Image, image.data = s.bytes → ∀ name,
    (ofChecked (Metadata.locate image) >>= fun md => md.readStream? s name)
      = ofChecked (Metadata.locate image >>= fun md => .ok (md.contents? name))
  row : ∀ table row, (Tables.read s >>= fun t => t.readRow table row)
    = ofChecked (TableStream.ofBytes s.bytes >>= fun st => st.readRow table row)
  /-- A record finds all columns that it takes. -/
  length_row : ∀ table row columns, (Tables.read s >>= fun t => t.readRow table row) = .ok columns →
    columns.length = table.columns.length
  record : Tables.GetChecked s ModuleRow ∧ Tables.GetChecked s TypeRefRow ∧
    Tables.GetChecked s TypeDefRow ∧ Tables.GetChecked s MethodDefRow ∧
    Tables.GetChecked s MemberRefRow ∧ Tables.GetChecked s AssemblyRow ∧
    Tables.GetChecked s NestedClassRow ∧ Tables.GetChecked s MethodSpecRow
  identifier : ∀ index, Identifiers.readGet s index
    = ofChecked (Identifiers.ofBytes s.bytes >>= fun h => h.get index)
  literal : ∀ index, Literals.readGet s index
    = ofChecked (Literals.ofBytes s.bytes >>= fun h => h.get index)
  literals : Literals.readAll s = ofChecked (Literals.ofBytes s.bytes >>= fun h => .ok h.entries)
  sections : ∀ start, Clause.readSections s start = ofChecked
    ((do Scan.seek start; Clause.scanSections 0 [] : Scan (List Clause)).evalAt s.bytes 0)
  body : MethodBody.read s resolver = ofChecked ((MethodBody.scan resolver).evalAt s.bytes 0)

namespace Tables

/-- What is read from the tables comes out as checked, if it does for tables that were read. -/
theorem read_bind (s : Slice) {next : Tables → Machine α} {next' : TableStream → Except Fault α}
    (hNext : ∀ st, TableStream.ofBytes s.bytes = .ok st →
      next (ofStream s st) = ofChecked (next' st)) :
    (read s >>= next) = ofChecked (TableStream.ofBytes s.bytes >>= next') := by
  rw [read_eq]
  cases hRead : TableStream.ofBytes s.bytes with
  | error fault => rfl
  | ok st => exact hNext st hRead

theorem getChecked (s : Slice) (α : Type) [TableRow α] [IndexedRow α] : GetChecked s α :=
  fun row => read_bind s fun _ hRead => get_eq hRead α row

/-- Records take fields by their position in the row, and every row has as many as its table has
columns. -/
theorem length_of_readRow {s : Slice} {table : TableId} {row : Nat} {columns : List Nat}
    (hRow : (read s >>= fun t => t.readRow table row) = .ok columns) :
    columns.length = table.columns.length := by
  rw [read_bind s fun _ hRead => readRow_eq hRead table row, ofChecked_eq_ok] at hRow
  obtain ⟨st, -, hRow⟩ := Except.bind_eq_ok.1 hRow
  exact (TableStream.row_of_readRow hRow).2

end Tables

/-- The streams of a root that was read lie in the metadata. -/
theorem Root.stream_le_of_read {s : Slice} {root : Root} (hRoot : read s = .ok root) :
    ∀ e ∈ root.streams, e.offset.toNat + e.size.toNat ≤ s.bytes.size := fun e hMem => by
  rw [read_eq, ofChecked_eq_ok] at hRoot
  exact ((known_of_readStreams (readFrom_of_ofBytes hRoot).streams_eq).2 e hMem).2

/-- Data from anywhere is read without a trap, with any resolver. -/
theorem Slice.readChecked (s : Slice) (resolver : Resolver) : s.ReadChecked resolver where
  cliHeader := CliHeader.read_eq s
  root := Root.read_eq s
  stream_le _ := Root.stream_le_of_read
  stream image hFile name := by
    rw [Metadata.locate_readStream hFile, Metadata.locate_stream]
  row table row := Tables.read_bind s fun _ hRead => Tables.readRow_eq hRead table row
  length_row _ _ _ := Tables.length_of_readRow
  record := ⟨Tables.getChecked s _, Tables.getChecked s _, Tables.getChecked s _,
    Tables.getChecked s _, Tables.getChecked s _, Tables.getChecked s _, Tables.getChecked s _,
    Tables.getChecked s _⟩
  identifier := Identifiers.readGet_eq s
  literal := Literals.readGet_eq s
  literals := Literals.readAll_eq s
  sections := Clause.readSections_eq s
  body := MethodBody.read_eq s resolver

end IlSplice
