import IlSplice.Body.SectionFlags
import IlSplice.DiskError
import IlSplice.Instruction
import IlSplice.Tables.CodedKind

/-!
The ways in which reading, patching or writing an assembly can fail.

A fault names its cause and the values that show it. `Fault.category` groups the causes, and
`Fault.message` and `Fault.describe` put them into words.
-/

namespace IlSplice

/-- The cause of a failure. -/
inductive Fault where
  -- Any data
  /-- The data ends before what is to be read. -/
  | outOfBounds
  /-- There is no data at all. -/
  | emptyInput
  /-- The layout of the file is not one that can be read or extended. -/
  | unsupported
  /-- The data is no portable executable. -/
  | notExecutable
  /-- A number has no compressed form. -/
  | compressedTooLarge (value : Nat)
  /-- A byte cannot start a compressed number. -/
  | compressedLead (byte : Nat)
  /-- A number does not fit 32 bits. -/
  | valueTooLarge (value : Nat)
  -- The container
  | noOptionalHeader
  | noCliDirectory
  | emptyCliDirectory
  | smallCliDirectory (size : Nat)
  | addressTooLarge (rva : Nat)
  | sectionOverflow (address extent : Nat)
  | addressUnmapped (rva : Nat)
  | badAlignment (file memory : Nat)
  | tooManySections
  | dataSizeOverflow
  -- The headers of the metadata
  | cliHeaderSize (size : Nat)
  | metadataAtZero
  | metadataEmpty
  | metadataTooLarge (size : Nat)
  | badSignature (value : Nat)
  | streamCount (count : Nat)
  | streamName (name : String)
  | streamOverflow (offset size : Nat)
  | tooManyStreams
  | streamMissing (name : String)
  -- Heaps
  | identifiersUnstarted
  | badIdentifier (index : Nat)
  | literalsUnstarted
  | literalHeapFull (offset : Nat)
  | literalTooLong (units : Nat)
  -- Tables
  | unknownTables (mask : Nat)
  | tooManyRows (table : TableId) (rows : Nat)
  | badTag (tag : Nat) (kind : CodedKind)
  /-- A row has fewer columns than its table. -/
  | shortRow
  -- Method bodies
  | emptyBody
  | fatHeaderSize (size : Nat)
  | headerFormat (byte : Nat)
  | codeTooLarge (size : Nat)
  | sectionKind (flags : SectionFlags)
  | sectionTooSmall (size : Nat)
  | tooManyClauses (count : Nat)
  | clauseAtEnd
  | clauseOverflow
  | clauseInverted
  -- Code
  | badOpcode (value : Nat)
  | notBoundary (offset : Nat)
  | targetNotBoundary (offset : Int)
  | codeOverflow
  | foreignTarget (target : Handle)
  | shortBranchRange (handle : Handle)
  | branchRange (handle : Handle)
  | switchRange (handle : Handle)
  | switchTooLong (handle : Handle)
  | operandMismatch (operand : Operand) (opcode : Opcode)
  -- Tokens
  | notMethod (token : Token)
  | notLiteral (token : Token)
  | noLiterals (token : Token)
  | unknownMethod (token : Token)
  | unknownLiteral (token : Token)
  /-- The body of a method cannot be read. -/
  | invalidBody (method : String) (row : Nat) (cause : Fault)
  -- Edits
  | foreignAnchor (handle : Handle)
  | foreignInstruction (handle : Handle)
  | noOffset (handle : Handle)
  | tooManyEntries (count : Nat)
  | entryTooFar (index : Nat)
  | sizeAnchorMissing
  | injectionAnchorMissing
  | stackOverflow
  -- Patches
  | typeNotFound (name : String) (found : Nat)
  | methodNotFound (typeName name : String) (found : Nat)
  | anchorNotFound (predicate : String)
  | anchorAmbiguous (predicate : String) (found : Nat)
  | anchorShape (found : String)
  | unsafeInsertion (instruction : String)
  -- Files
  | inputMissing (path : String)
  | unreadable (cause : DiskError)
  | unmappable (cause : DiskError)
  | writeFailed (path : String) (cause : DiskError)
  deriving DecidableEq, Repr

namespace Fault

/-- The groups of causes. -/
inductive Category where
  | outOfBounds
  | empty
  | unsupported
  | notExecutable
  | malformed
  | general
  | typeNotFound
  | methodNotFound
  | anchorNotFound
  | anchorAmbiguous
  | anchorShape
  | unsafeInsertion
  | inputMissing
  | file
  | write
  deriving DecidableEq, Repr

/-- The group of a cause. -/
def category : Fault → Category
  | .outOfBounds => .outOfBounds
  | .emptyInput => .empty
  | .unsupported => .unsupported
  | .notExecutable => .notExecutable
  | .unknownMethod _ | .unknownLiteral _ | .foreignAnchor _ | .foreignInstruction _ | .noOffset _
  | .tooManyEntries _ | .entryTooFar _ | .sizeAnchorMissing | .injectionAnchorMissing
  | .stackOverflow | .unmappable _ => .general
  | .typeNotFound .. => .typeNotFound
  | .methodNotFound .. => .methodNotFound
  | .anchorNotFound _ => .anchorNotFound
  | .anchorAmbiguous .. => .anchorAmbiguous
  | .anchorShape _ => .anchorShape
  | .unsafeInsertion _ => .unsafeInsertion
  | .inputMissing _ => .inputMissing
  | .unreadable _ => .file
  | .writeFailed .. => .write
  | _ => .malformed

/-- The cause in words. -/
def message : Fault → String
  | .outOfBounds => "Out of Bound read would have occurred"
  | .emptyInput => "Provided input was empty"
  | .unsupported => "This file type is not supported"
  | .notExecutable => "Not a portable executable"
  | .compressedTooLarge value => s!"Value too large for a compressed integer - {value}"
  | .compressedLead byte => s!"Invalid compressed uint - {byte}"
  | .valueTooLarge value => s!"Value exceeds 32 bits - 0x{Hex.digits value}"
  | .noOptionalHeader => "File does not have an OptionalHeader"
  | .noCliDirectory => "File does not have a CLR runtime header directory"
  | .emptyCliDirectory => "CLR runtime header directory is empty"
  | .smallCliDirectory size => s!"CLR runtime header directory too small - {size}"
  | .addressTooLarge rva => s!"RVA too large to fit in u32: {rva}"
  | .sectionOverflow address extent =>
    s!"Section malformed, causing integer overflow - {address} + {extent}"
  | .addressUnmapped rva => s!"RVA could not be converted to offset - {rva}"
  | .badAlignment file memory =>
    s!"Invalid alignment - file 0x{Hex.digits file}, section 0x{Hex.digits memory}"
  | .tooManySections => "Too many sections"
  | .dataSizeOverflow => "SizeOfInitializedData overflows"
  | .cliHeaderSize size => s!"Invalid CLR header size: expected 72, got {size}"
  | .metadataAtZero => "Metadata RVA cannot be zero"
  | .metadataEmpty => "Metadata size cannot be zero"
  | .metadataTooLarge size => s!"Metadata size {size} exceeds reasonable limit (256MB)"
  | .badSignature value => s!"CIL_HEADER_MAGIC does not match - {value}"
  | .streamCount count => s!"Invalid stream count - {count}"
  | .streamName name => s!"Invalid stream header name - {name}"
  | .streamOverflow offset size =>
    s!"Stream offset and size cause integer overflow - {offset} + {size}"
  | .tooManyStreams => "Too many streams"
  | .streamMissing name => s!"Metadata has no {name} stream"
  | .identifiersUnstarted => "Provided #Strings heap is empty"
  | .badIdentifier index => s!"Invalid string at index - {index}"
  | .literalsUnstarted => "Provided #US heap is empty"
  | .literalHeapFull offset => s!"#US heap offset 0x{Hex.digits offset} exceeds the token range"
  | .literalTooLong units => s!"String literal too long - {units} units"
  | .unknownTables mask =>
    s!"Tables stream references unknown tables - valid mask 0x{Hex.padded 16 mask}"
  | .tooManyRows table rows => s!"Table {table.name} has too many rows - {rows}"
  | .badTag tag kind => s!"Invalid tag {tag} for coded index {kind.name}"
  | .shortRow => "Row has too few columns"
  | .emptyBody => "Provided data for body parsing is empty"
  | .fatHeaderSize size => s!"Unexpected fat header size - {size}"
  | .headerFormat byte => s!"MethodHeader is neither FAT nor TINY - {byte}"
  | .codeTooLarge size => s!"Method code too large - {size}"
  | .sectionKind flags => s!"Unsupported method data section - {flags.describe}"
  | .sectionTooSmall size => s!"Exception section too small - {size}"
  | .tooManyClauses count => s!"Too many exception clauses - {count}"
  | .clauseAtEnd => "Exception clause starts at the end of the method"
  | .clauseOverflow => "Exception clause overflows"
  | .clauseInverted => "Exception clause bounds are inverted"
  | .badOpcode value => s!"Invalid opcode: {Hex.paddedUpper 1 value}"
  | .notBoundary offset => s!"Offset 0x{Hex.digits offset} is not an instruction boundary"
  | .targetNotBoundary offset =>
    s!"Branch target 0x{Hex.digits64 offset} is not an instruction boundary"
  | .codeOverflow => "Method code exceeds 4GiB"
  | .foreignTarget target => s!"Branch target {Handle.text target} is not part of the method"
  | .shortBranchRange handle => s!"Short branch out of range at {Handle.text handle}"
  | .branchRange handle => s!"Branch out of range at {Handle.text handle}"
  | .switchRange handle => s!"Switch target out of range at {Handle.text handle}"
  | .switchTooLong handle => s!"Too many switch targets at {Handle.text handle}"
  | .operandMismatch operand opcode =>
    s!"Operand {operand.describe} does not fit opcode {opcode.mnemonic}"
  | .notMethod token => s!"Token {token} is not a method"
  | .notLiteral token => s!"Token {token} is not a string literal"
  | .noLiterals token => s!"String literal {token} without a #US heap"
  | .unknownMethod token => s!"Unknown method token {token}"
  | .unknownLiteral token => s!"Unknown string token {token}"
  | .invalidBody method row cause =>
    let described := if cause.category = .malformed then "Malformed: " ++ cause.message
      else cause.message
    s!"Method {method} (rid {row}) has an invalid body - {described}"
  | .foreignAnchor handle => s!"Insertion anchor {Handle.text handle} is not part of this method"
  | .foreignInstruction handle => s!"Instruction {Handle.text handle} is not part of this method"
  | .noOffset handle => s!"{Handle.text handle} is not part of the method"
  | .tooManyEntries count => s!"Too many entries - {count}"
  | .entryTooFar index => s!"Entry index {index} too large"
  | .sizeAnchorMissing => "Array size anchor is not part of the method"
  | .injectionAnchorMissing => "Injection anchor is not part of the method"
  | .stackOverflow => "Stack bound overflows"
  | .typeNotFound name found => s!"Expected exactly one type named '{name}', found {found}"
  | .methodNotFound typeName name found =>
    s!"Expected exactly one method '{typeName}::{name}' with a body, found {found}"
  | .anchorNotFound predicate => s!"No instruction matches {predicate}"
  | .anchorAmbiguous predicate found =>
    s!"{found} instructions match {predicate}, expected exactly one"
  | .anchorShape found => s!"Unexpected anchor shape - expected ldc.i4, found '{found}'"
  | .unsafeInsertion instruction =>
    s!"Unsafe insertion point - '{instruction}' is a branch or exception handler target"
  | .inputMissing path => s!"Input assembly not found - {path}"
  | .unreadable cause => cause.message
  | .unmappable cause => cause.message
  | .writeFailed path cause => s!"Failed to write {path} - {cause.message}"

/-- The message, marked as being about malformed data where it is. -/
def describe (f : Fault) : String :=
  if f.category = .malformed then "Malformed: " ++ f.message else f.message

/-- The failure of a file operation behind the fault. -/
def diskError? : Fault → Option DiskError
  | .unreadable cause | .writeFailed _ cause => some cause
  | _ => none

end Fault

end IlSplice
