/-!
The tables of the metadata.
-/

namespace IlSplice

/-- The metadata tables, in the order of their numbers. -/
inductive TableId where
  | module | typeRef | typeDef | fieldPtr | field | methodPtr | methodDef | paramPtr | param
  | interfaceImpl | memberRef | constant | customAttribute | fieldMarshal | declSecurity
  | classLayout | fieldLayout | standAloneSig | eventMap | eventPtr | event | propertyMap
  | propertyPtr | property | methodSemantics | methodImpl | moduleRef | typeSpec | implMap
  | fieldRva | encLog | encMap | assembly | assemblyProcessor | assemblyOS | assemblyRef
  | assemblyRefProcessor | assemblyRefOS | file | exportedType | manifestResource | nestedClass
  | genericParam | methodSpec | genericParamConstraint
  deriving DecidableEq, Repr

namespace TableId

/-- The number of the table in tokens and in the mask of present tables. -/
def number (t : TableId) : Nat := t.ctorIdx

/-- How many tables there are. -/
def count : Nat := 45

/-- All tables, in the order of their numbers. -/
def all : List TableId := (List.range count).map TableId.ofNat

/-- The table with the given number. -/
def ofNumber? (n : Nat) : Option TableId := if n < count then some (TableId.ofNat n) else none

/-- The name of the table. -/
def name : TableId → String
  | .module => "Module"
  | .typeRef => "TypeRef"
  | .typeDef => "TypeDef"
  | .fieldPtr => "FieldPtr"
  | .field => "Field"
  | .methodPtr => "MethodPtr"
  | .methodDef => "MethodDef"
  | .paramPtr => "ParamPtr"
  | .param => "Param"
  | .interfaceImpl => "InterfaceImpl"
  | .memberRef => "MemberRef"
  | .constant => "Constant"
  | .customAttribute => "CustomAttribute"
  | .fieldMarshal => "FieldMarshal"
  | .declSecurity => "DeclSecurity"
  | .classLayout => "ClassLayout"
  | .fieldLayout => "FieldLayout"
  | .standAloneSig => "StandAloneSig"
  | .eventMap => "EventMap"
  | .eventPtr => "EventPtr"
  | .event => "Event"
  | .propertyMap => "PropertyMap"
  | .propertyPtr => "PropertyPtr"
  | .property => "Property"
  | .methodSemantics => "MethodSemantics"
  | .methodImpl => "MethodImpl"
  | .moduleRef => "ModuleRef"
  | .typeSpec => "TypeSpec"
  | .implMap => "ImplMap"
  | .fieldRva => "FieldRVA"
  | .encLog => "EncLog"
  | .encMap => "EncMap"
  | .assembly => "Assembly"
  | .assemblyProcessor => "AssemblyProcessor"
  | .assemblyOS => "AssemblyOS"
  | .assemblyRef => "AssemblyRef"
  | .assemblyRefProcessor => "AssemblyRefProcessor"
  | .assemblyRefOS => "AssemblyRefOS"
  | .file => "File"
  | .exportedType => "ExportedType"
  | .manifestResource => "ManifestResource"
  | .nestedClass => "NestedClass"
  | .genericParam => "GenericParam"
  | .methodSpec => "MethodSpec"
  | .genericParamConstraint => "GenericParamConstraint"

end TableId

end IlSplice
