import IlSplice.Proofs.Machine.Tables

/-! Rows as records. A record takes its fields from a row by the positions of columns, without
looking how many there are; every row that is read has all columns of its table. -/

namespace IlSplice

open Machine

/-- A record is made from a coded index in the same way whether or not it was taken apart in words.
-/
theorem CodedKind.decodeWord_map (kind : CodedKind) (value : Nat) (make : CodedIndex → α) :
    (do return make (← kind.decodeWord value) : Machine α)
      = ofChecked (do return make (← kind.decode value)) := by
  rw [decodeWord_eq]
  exact bind_ofChecked fun _ _ => rfl

/-- A record that takes its fields from the positions of columns. -/
class IndexedRow (α : Type) [TableRow α] where
  /-- The record of a row, if the row has the columns. -/
  pick : List Nat → Machine α
  /-- A row with the columns of the table has all that the record takes. -/
  pick_eq : ∀ columns : List Nat, columns.length = (TableRow.table α).columns.length →
    pick columns = ofChecked (TableRow.ofColumns columns)

instance : IndexedRow ModuleRow where
  pick columns := return ⟨← present columns[1]?⟩
  pick_eq
    | [_, _, _, _, _], _ => rfl

instance : IndexedRow TypeRefRow where
  pick columns := do
    let scope ← CodedKind.resolutionScope.decodeWord (← present columns[0]?)
    return ⟨scope, ← present columns[1]?, ← present columns[2]?⟩
  pick_eq
    | [scope, name, namespaceName], _ => by
      simp only [List.getElem?_cons_zero, List.getElem?_cons_succ, present_some, ok_bind]
      exact CodedKind.decodeWord_map .resolutionScope scope fun index =>
        TypeRefRow.mk index name namespaceName

instance : IndexedRow TypeDefRow where
  pick columns := do
    let flags ← present columns[0]?
    let name ← present columns[1]?
    let namespaceName ← present columns[2]?
    let parent ← CodedKind.typeDefOrRef.decodeWord (← present columns[3]?)
    return ⟨flags, name, namespaceName, parent, ← present columns[4]?, ← present columns[5]?⟩
  pick_eq
    | [flags, name, namespaceName, parent, fieldList, methodList], _ => by
      simp only [List.getElem?_cons_zero, List.getElem?_cons_succ, present_some, ok_bind]
      exact CodedKind.decodeWord_map .typeDefOrRef parent fun index =>
        TypeDefRow.mk flags name namespaceName index fieldList methodList

instance : IndexedRow MethodDefRow where
  pick columns := return ⟨← present columns[0]?, ← present columns[1]?, ← present columns[2]?,
    ← present columns[3]?, ← present columns[4]?, ← present columns[5]?⟩
  pick_eq
    | [_, _, _, _, _, _], _ => rfl

instance : IndexedRow MemberRefRow where
  pick columns := do
    let parent ← CodedKind.memberRefParent.decodeWord (← present columns[0]?)
    return ⟨parent, ← present columns[1]?, ← present columns[2]?⟩
  pick_eq
    | [parent, name, signature], _ => by
      simp only [List.getElem?_cons_zero, List.getElem?_cons_succ, present_some, ok_bind]
      exact CodedKind.decodeWord_map .memberRefParent parent fun index =>
        MemberRefRow.mk index name signature

instance : IndexedRow AssemblyRow where
  pick columns := return ⟨← present columns[1]?, ← present columns[2]?, ← present columns[3]?,
    ← present columns[4]?, ← present columns[7]?⟩
  pick_eq
    | [_, _, _, _, _, _, _, _, _], _ => rfl

instance : IndexedRow NestedClassRow where
  pick columns := return ⟨← present columns[0]?, ← present columns[1]?⟩
  pick_eq
    | [_, _], _ => rfl

instance : IndexedRow MethodSpecRow where
  pick columns := do
    let method ← CodedKind.methodDefOrRef.decodeWord (← present columns[0]?)
    return ⟨method, ← present columns[1]?⟩
  pick_eq
    | [method, instantiation], _ => by
      simp only [List.getElem?_cons_zero, List.getElem?_cons_succ, present_some, ok_bind]
      exact CodedKind.decodeWord_map .methodDefOrRef method fun index =>
        MethodSpecRow.mk index instantiation

namespace Tables

variable {s : Slice} {st : TableStream}

/-- A row as a record. -/
def get (t : Tables) (α : Type) [TableRow α] [IndexedRow α] (row : Nat) : Machine α := do
  let columns ← t.readRow (TableRow.table α) row
  IndexedRow.pick columns

/-- A record of any row of any table, where the row number may be anything. -/
theorem get_eq (hRead : TableStream.ofBytes s.bytes = .ok st) (α : Type) [TableRow α]
    [IndexedRow α] (row : Nat) : (ofStream s st).get α row = ofChecked (st.get α row) := by
  rw [get, readRow_eq hRead]
  exact bind_ofChecked fun columns hRow =>
    IndexedRow.pick_eq columns (TableStream.row_of_readRow hRow).2

end Tables

end IlSplice
