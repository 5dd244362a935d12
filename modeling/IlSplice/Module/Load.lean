import IlSplice.Heap.Identifiers
import IlSplice.Heap.Literals
import IlSplice.Metadata
import IlSplice.Metadata.MethodTraits
import IlSplice.Module
import IlSplice.Tables.Row

/-!
Loading a module from an image.

Every method body is taken apart at once, so that an image is accepted only if all of its code is
sound. The names of callees and the texts of literals are looked up in the metadata.
-/

namespace IlSplice

/-- The streams that a module is built from. -/
structure Streams where
  tables : TableStream
  names : Identifiers
  /-- An image without string literals may have no heap for them. -/
  literals : Option Literals

namespace Streams

/-- Reads the streams of an image. -/
def ofMetadata (md : Metadata) : Except Fault Streams := do
  let tables ← TableStream.ofBytes (← md.stream TableStream.streamName)
  let names ← Identifiers.ofBytes (← md.stream Identifiers.streamName)
  let literals ← match ← md.stream? Literals.streamName with
    | some data => some <$> Literals.ofBytes data
    | none => pure none
  return ⟨tables, names, literals⟩

/-- The name of a method of the module, or of a member of another type. -/
def memberName (s : Streams) (token : Token) : Except Fault String := do
  if token.table = Token.methodDefTable then
    s.names.get (← s.tables.get MethodDefRow token.row).name
  else if token.table = Token.memberRefTable then
    s.names.get (← s.tables.get MemberRefRow token.row).name
  else .error (.notMethod token)

/-- The name of whatever can be called. An instance of a generic method has the name of the
method. -/
def methodName (s : Streams) (token : Token) : Except Fault String := do
  if token.table = Token.methodSpecTable then
    s.memberName (← s.tables.get MethodSpecRow token.row).method.token
  else s.memberName token

/-- The text of a string literal. -/
def literalText (s : Streams) (token : Token) : Except Fault String :=
  match s.literals with
  | none => .error (.noLiterals token)
  | some heap =>
    if token.table = Token.literalTable then heap.get token.row else .error (.notLiteral token)

/-- Looks tokens up in the streams. -/
def resolver (s : Streams) : Resolver := ⟨s.methodName, s.literalText⟩

end Streams

/-- Loads the body at an address. It may reach to the end of the file. -/
def MethodBody.load (image : Image) (s : Streams) (rva : Nat) (name : String) (row : Nat) :
    Except Fault MethodBody := do
  let offset ← image.offsetOf rva
  if image.data.size < offset then .error .outOfBounds
  else
    match Scan.evalAt (MethodBody.scan s.resolver) image.data offset with
    | .ok body => return body
    | .error cause => .error (.invalidBody name row cause)

/-- Loads a row of the table of methods. -/
def MethodDef.load (image : Image) (s : Streams) (row : Nat) : Except Fault MethodDef := do
  let columns ← s.tables.get MethodDefRow row
  let name ← s.names.get columns.name
  let body ←
    if hasBody columns.rva columns.implFlags columns.flags then
      some <$> MethodBody.load image s columns.rva name row
    else pure none
  return {
    token := Token.ofParts Token.methodDefTable row
    name
    flags := UInt32.ofNat columns.flags
    implFlags := UInt32.ofNat columns.implFlags
    rva := UInt32.ofNat columns.rva
    body
    modified := false }

namespace TypeDef

/-- The rows of a type's methods: from its own list up to that of the next type, or to the end of
the table. -/
def methodRows (count : Nat) (columns : TypeDefRow) (next : Option TypeDefRow) : List Nat :=
  let first := max columns.methodList 1
  let stop := min ((next.map (·.methodList)).getD (count + 1)) (count + 1)
  List.range' first (stop - first)

/-- Loads types that stand behind each other in the table of types. -/
def loadAll (image : Image) (s : Streams) (nested : List Nat) :
    Nat → List TypeDefRow → Except Fault (List TypeDef)
  | _, [] => .ok []
  | row, columns :: rest => do
    let rows := methodRows (s.tables.rows .methodDef) columns rest.head?
    let methods ← rows.mapM (MethodDef.load image s)
    let namespaceName ← s.names.get columns.namespaceName
    let name ← s.names.get columns.name
    let type : TypeDef :=
      ⟨Token.ofParts Token.typeDefTable row, namespaceName, name, nested.contains row, methods⟩
    return type :: (← loadAll image s nested (row + 1) rest)

end TypeDef

namespace Module

/-- The identity of an assembly; the parts of its version have 16 bits each. -/
def loadAssembly (s : Streams) : Except Fault AssemblyIdentity := do
  let columns ← s.tables.get AssemblyRow 1
  let name ← s.names.get columns.name
  return ⟨name, UInt16.ofNat columns.major, UInt16.ofNat columns.minor,
    UInt16.ofNat columns.build, UInt16.ofNat columns.revision⟩

/-- The name of the module; a table of modules without rows gives none. -/
def loadName (s : Streams) : Except Fault String := do
  if s.tables.rows .module = 0 then return ""
  else s.names.get (← s.tables.get ModuleRow 1).name

/-- Loads the module in an image. -/
def ofImage (image : Image) : Except Fault Module := do
  let s ← Streams.ofMetadata (← Metadata.locate image)
  let name ← loadName s
  let assembly ←
    if s.tables.rows .assembly = 0 then pure none else some <$> loadAssembly s
  let nested ← s.tables.getAll NestedClassRow
  let types ← s.tables.getAll TypeDefRow
  let types ← TypeDef.loadAll image s (nested.map (·.nested)) 1 types
  return ⟨name, assembly, types, some image⟩

/-- Loads the module in the contents of a file. -/
def ofBytes (data : Bytes) : Except Fault Module := do
  ofImage (← Image.ofBytes data)

end Module

end IlSplice
