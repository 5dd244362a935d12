import IlSplice.Tables.Stream

/-!
The tables whose rows are looked at, as records.
-/

namespace IlSplice

/-- The row of the module itself. -/
structure ModuleRow where
  name : Nat

/-- A type of another assembly. -/
structure TypeRefRow where
  scope : CodedIndex
  name : Nat
  namespaceName : Nat

/-- A type of the module. The lists say where its fields and methods start. -/
structure TypeDefRow where
  flags : Nat
  name : Nat
  namespaceName : Nat
  baseType : CodedIndex
  fieldList : Nat
  methodList : Nat

/-- A method of the module. -/
structure MethodDefRow where
  rva : Nat
  implFlags : Nat
  flags : Nat
  name : Nat
  signature : Nat
  paramList : Nat

/-- A member of another type. -/
structure MemberRefRow where
  parent : CodedIndex
  name : Nat
  signature : Nat

/-- The assembly that the module belongs to. -/
structure AssemblyRow where
  major : Nat
  minor : Nat
  build : Nat
  revision : Nat
  name : Nat

/-- A type inside another type. -/
structure NestedClassRow where
  nested : Nat
  enclosing : Nat

/-- A generic method with its type arguments. -/
structure MethodSpecRow where
  method : CodedIndex
  instantiation : Nat

/-- A record that stands for the rows of one table. -/
class TableRow (α : Type) where
  /-- The table. -/
  table : TableId
  /-- The record of a row with the given columns. -/
  ofColumns : List Nat → Except Fault α

instance : TableRow ModuleRow where
  table := .module
  ofColumns
    | _ :: name :: _ => .ok ⟨name⟩
    | _ => .error .shortRow

instance : TableRow TypeRefRow where
  table := .typeRef
  ofColumns
    | [scope, name, namespaceName] => do
      return ⟨← CodedKind.resolutionScope.decode scope, name, namespaceName⟩
    | _ => .error .shortRow

instance : TableRow TypeDefRow where
  table := .typeDef
  ofColumns
    | [flags, name, namespaceName, parent, fieldList, methodList] => do
      return ⟨flags, name, namespaceName, ← CodedKind.typeDefOrRef.decode parent, fieldList,
        methodList⟩
    | _ => .error .shortRow

instance : TableRow MethodDefRow where
  table := .methodDef
  ofColumns
    | [rva, implFlags, flags, name, signature, paramList] =>
      .ok ⟨rva, implFlags, flags, name, signature, paramList⟩
    | _ => .error .shortRow

instance : TableRow MemberRefRow where
  table := .memberRef
  ofColumns
    | [parent, name, signature] => do
      return ⟨← CodedKind.memberRefParent.decode parent, name, signature⟩
    | _ => .error .shortRow

instance : TableRow AssemblyRow where
  table := .assembly
  ofColumns
    | [_, major, minor, build, revision, _, _, name, _] => .ok ⟨major, minor, build, revision, name⟩
    | _ => .error .shortRow

instance : TableRow NestedClassRow where
  table := .nestedClass
  ofColumns
    | [nested, enclosing] => .ok ⟨nested, enclosing⟩
    | _ => .error .shortRow

instance : TableRow MethodSpecRow where
  table := .methodSpec
  ofColumns
    | [method, instantiation] => do
      return ⟨← CodedKind.methodDefOrRef.decode method, instantiation⟩
    | _ => .error .shortRow

namespace MethodDefRow

/-- The column that holds where the body is. -/
def rvaColumn : Nat := 0

end MethodDefRow

namespace TableStream

/-- A row as a record. -/
def get (s : TableStream) (α : Type) [TableRow α] (row : Nat) : Except Fault α := do
  TableRow.ofColumns (← s.readRow (TableRow.table α) row)

/-- All rows of a table as records. -/
def getAll (s : TableStream) (α : Type) [TableRow α] : Except Fault (List α) :=
  (List.range' 1 (s.rows (TableRow.table α))).mapM (s.get α)

end TableStream

end IlSplice
