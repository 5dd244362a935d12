import IlSplice.Tables.CodedKind

/-!
The columns of every metadata table.
-/

namespace IlSplice

/-- The width of a column whose size does not depend on the metadata. -/
inductive FixedWidth where
  | one
  | two
  | four
  deriving DecidableEq, Repr

/-- The bytes of a fixed column. -/
def FixedWidth.bytes : FixedWidth → Nat
  | .one => 1
  | .two => 2
  | .four => 4

/-- What a column of a table holds. -/
inductive Column where
  /-- A number. -/
  | fixed (width : FixedWidth)
  /-- An offset into the heap of identifiers. -/
  | name
  /-- A number in the heap of unique identifiers. -/
  | guid
  /-- An offset into the heap of blobs. -/
  | blob
  /-- A row of one table. -/
  | row (table : TableId)
  /-- A row of one of several tables. -/
  | coded (kind : CodedKind)
  deriving DecidableEq, Repr

/-- The column spelt out. -/
def Column.describe : Column → String
  | .fixed width => s!"Fixed({width.bytes})"
  | .name => "Str"
  | .guid => "Guid"
  | .blob => "Blob"
  | .row table => s!"Table({table.name})"
  | .coded kind => s!"Coded({kind.name})"

/-- The columns of each table, in order. -/
def TableId.columns : TableId → List Column
  | .module => [.fixed .two, .name, .guid, .guid, .guid]
  | .typeRef => [.coded .resolutionScope, .name, .name]
  | .typeDef => [.fixed .four, .name, .name, .coded .typeDefOrRef, .row .field, .row .methodDef]
  | .fieldPtr => [.row .field]
  | .field => [.fixed .two, .name, .blob]
  | .methodPtr => [.row .methodDef]
  | .methodDef => [.fixed .four, .fixed .two, .fixed .two, .name, .blob, .row .param]
  | .paramPtr => [.row .param]
  | .param => [.fixed .two, .fixed .two, .name]
  | .interfaceImpl => [.row .typeDef, .coded .typeDefOrRef]
  | .memberRef => [.coded .memberRefParent, .name, .blob]
  | .constant => [.fixed .one, .fixed .one, .coded .hasConstant, .blob]
  | .customAttribute => [.coded .hasCustomAttribute, .coded .customAttributeType, .blob]
  | .fieldMarshal => [.coded .hasFieldMarshal, .blob]
  | .declSecurity => [.fixed .two, .coded .hasDeclSecurity, .blob]
  | .classLayout => [.fixed .two, .fixed .four, .row .typeDef]
  | .fieldLayout => [.fixed .four, .row .field]
  | .standAloneSig => [.blob]
  | .eventMap => [.row .typeDef, .row .event]
  | .eventPtr => [.row .event]
  | .event => [.fixed .two, .name, .coded .typeDefOrRef]
  | .propertyMap => [.row .typeDef, .row .property]
  | .propertyPtr => [.row .property]
  | .property => [.fixed .two, .name, .blob]
  | .methodSemantics => [.fixed .two, .row .methodDef, .coded .hasSemantics]
  | .methodImpl => [.row .typeDef, .coded .methodDefOrRef, .coded .methodDefOrRef]
  | .moduleRef => [.name]
  | .typeSpec => [.blob]
  | .implMap => [.fixed .two, .coded .memberForwarded, .name, .row .moduleRef]
  | .fieldRva => [.fixed .four, .row .field]
  | .encLog => [.fixed .four, .fixed .four]
  | .encMap => [.fixed .four]
  | .assembly =>
    [.fixed .four, .fixed .two, .fixed .two, .fixed .two, .fixed .two, .fixed .four, .blob, .name,
      .name]
  | .assemblyProcessor => [.fixed .four]
  | .assemblyOS => [.fixed .four, .fixed .four, .fixed .four]
  | .assemblyRef =>
    [.fixed .two, .fixed .two, .fixed .two, .fixed .two, .fixed .four, .blob, .name, .name, .blob]
  | .assemblyRefProcessor => [.fixed .four, .row .assemblyRef]
  | .assemblyRefOS => [.fixed .four, .fixed .four, .fixed .four, .row .assemblyRef]
  | .file => [.fixed .four, .name, .blob]
  | .exportedType => [.fixed .four, .fixed .four, .name, .name, .coded .implementation]
  | .manifestResource => [.fixed .four, .fixed .four, .name, .coded .implementation]
  | .nestedClass => [.row .typeDef, .row .typeDef]
  | .genericParam => [.fixed .two, .fixed .two, .coded .typeOrMethodDef, .name]
  | .methodSpec => [.coded .methodDefOrRef, .blob]
  | .genericParamConstraint => [.row .genericParam, .coded .typeDefOrRef]

end IlSplice
