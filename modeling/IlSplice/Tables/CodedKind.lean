import IlSplice.Tables.TableId

/-!
The families of coded indexes.

A coded index refers to a row of one of several tables. Its low bits are a tag, a position in the
family's list of tables, and the bits above are the row.
-/

namespace IlSplice

/-- The families of coded indexes. -/
inductive CodedKind where
  | typeDefOrRef | hasConstant | hasCustomAttribute | hasFieldMarshal | hasDeclSecurity
  | memberRefParent | hasSemantics | methodDefOrRef | memberForwarded | implementation
  | customAttributeType | resolutionScope | typeOrMethodDef
  deriving DecidableEq, Repr

namespace CodedKind

/-- All families. -/
def all : List CodedKind := (List.range 13).map CodedKind.ofNat

/-- The name of the family. -/
def name : CodedKind → String
  | .typeDefOrRef => "TypeDefOrRef"
  | .hasConstant => "HasConstant"
  | .hasCustomAttribute => "HasCustomAttribute"
  | .hasFieldMarshal => "HasFieldMarshal"
  | .hasDeclSecurity => "HasDeclSecurity"
  | .memberRefParent => "MemberRefParent"
  | .hasSemantics => "HasSemantics"
  | .methodDefOrRef => "MethodDefOrRef"
  | .memberForwarded => "MemberForwarded"
  | .implementation => "Implementation"
  | .customAttributeType => "CustomAttributeType"
  | .resolutionScope => "ResolutionScope"
  | .typeOrMethodDef => "TypeOrMethodDef"

/-- The tables of the family, by tag. The tags 0, 1 and 4 of custom attribute types are not in
use and stand for the table beside them. -/
def tables : CodedKind → List TableId
  | .typeDefOrRef => [.typeDef, .typeRef, .typeSpec]
  | .hasConstant => [.field, .param, .property]
  | .hasCustomAttribute =>
    [.methodDef, .field, .typeRef, .typeDef, .param, .interfaceImpl, .memberRef, .module,
      .declSecurity, .property, .event, .standAloneSig, .moduleRef, .typeSpec, .assembly,
      .assemblyRef, .file, .exportedType, .manifestResource, .genericParam, .genericParamConstraint,
      .methodSpec]
  | .hasFieldMarshal => [.field, .param]
  | .hasDeclSecurity => [.typeDef, .methodDef, .assembly]
  | .memberRefParent => [.typeDef, .typeRef, .moduleRef, .methodDef, .typeSpec]
  | .hasSemantics => [.event, .property]
  | .methodDefOrRef => [.methodDef, .memberRef]
  | .memberForwarded => [.field, .methodDef]
  | .implementation => [.file, .assemblyRef, .exportedType]
  | .customAttributeType => [.methodDef, .methodDef, .methodDef, .memberRef, .memberRef]
  | .resolutionScope => [.module, .moduleRef, .assemblyRef, .typeRef]
  | .typeOrMethodDef => [.typeDef, .methodDef]

/-- The least number of bits that tell the tables of the family apart. -/
def tagBits (k : CodedKind) : Nat := Nat.log2 (k.tables.length - 1) + 1

end CodedKind

end IlSplice
