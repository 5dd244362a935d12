import IlSplice.Image.Section

/-!
The headers of a portable executable.

They are read only if they are complete. Only a few of their fields matter: where the parts of the
headers are, the alignments, the directories and the sections. Build tools may leave a header of
their own between the two signatures, which has to be complete as well. Its contents do not matter.
-/

namespace IlSplice

/-- An entry of the directories at the end of the optional header. -/
structure Directory where
  rva : UInt32
  size : UInt32
  deriving DecidableEq, Repr

/-- The fields of the optional header that matter. -/
structure OptionalHeader where
  /-- The 64-bit form of the header. -/
  plus : Bool
  /-- The address at which the image prefers to be in memory. -/
  imageBase : UInt64
  sectionAlignment : UInt32
  fileAlignment : UInt32
  sizeOfHeaders : UInt32
  directories : List Directory
  deriving DecidableEq, Repr

namespace OptionalHeader

/-- The directory at a position of the list, unless it is missing or empty. -/
def directory? (h : OptionalHeader) (position : Nat) : Option Directory :=
  h.directories[position]?.filter (· ≠ ⟨0, 0⟩)

/-- The position of the directory for thread storage. -/
def threadDirectory : Nat := 9

/-- The position of the CLI directory. -/
def cliDirectory : Nat := 14

/-- The most directories that a header may have. -/
def maxDirectories : Nat := 16

/-- The bytes in front of the directories. -/
def fieldSize (plus : Bool) : Nat := if plus then 112 else 96

/-- Reads the header at an offset, if all of it is there. -/
def of? (data : Bytes) (offset : Nat) : Option OptionalHeader := do
  let magic := data.uintAt offset 2
  guard (offset + 2 ≤ data.size ∧ (magic = 0x10B ∨ magic = 0x20B))
  let plus := magic = 0x20B
  let list := offset + fieldSize plus
  guard (list ≤ data.size)
  let count := data.uintAt (list - 4) 4
  guard (count ≤ maxDirectories ∧ list + 8 * count ≤ data.size)
  let word := fun start => UInt32.ofNat (data.uintAt start 4)
  return {
    plus
    imageBase := UInt64.ofNat
      (if plus then data.uintAt (offset + 24) 8 else data.uintAt (offset + 28) 4)
    sectionAlignment := word (offset + 32)
    fileAlignment := word (offset + 36)
    sizeOfHeaders := word (offset + 60)
    directories := (List.range count).map fun i => ⟨word (list + 8 * i), word (list + 8 * i + 4)⟩ }

end OptionalHeader

/-- The headers of a portable executable. -/
structure Headers where
  /-- Where the signature is. -/
  signatureOffset : Nat
  /-- The size that the file states for its optional header. -/
  optionalSize : Nat
  optional : Option OptionalHeader
  sections : List Section
  deriving DecidableEq, Repr

namespace Headers

/-- Where the optional header is. -/
def optionalOffset (h : Headers) : Nat := h.signatureOffset + 24

/-- Where the section table is. -/
def sectionTableOffset (h : Headers) : Nat := h.optionalOffset + h.optionalSize

/-- The bytes that end the header that build tools put in front of the signature. -/
def toolMark : List UInt8 := [0x52, 0x69, 0x63, 0x68]

/-- The number that starts the header of build tools, once the key is taken off it. -/
def toolStart : Nat := 0x536E6144

/-- The header of build tools that `mark` ends is complete. The key stands behind the mark. Under
the key, the number that starts the header stands in front of it, then three words of filling, and
then two words for each tool. -/
def hasToolHeader (data : Bytes) (start mark stop : Nat) : Bool :=
  let key := data.uintAt (mark + 4) 4
  let first := (List.range' start (mark - start)).find? fun i =>
    data.uintAt i 4 ^^^ key == toolStart
  decide (mark + 8 ≤ stop)
    && first.any fun i => decide (i + 16 ≤ mark) && (mark - (i + 16)) % 8 == 0

/-- If build tools have left a mark from `start` up to `stop`, it ends a complete header. -/
def isSoundlyMarked (data : Bytes) (start stop : Nat) : Bool :=
  let marks := fun i => (data.extract i (i + 4)).toList == toolMark
  ((List.range' start (stop - start - 3)).find? marks).all (hasToolHeader data start · stop)

/-- The headers at the start of a file, if they are complete. -/
def of? (data : Bytes) : Option Headers := do
  guard (0x40 ≤ data.size ∧ data.uintAt 0 2 = 0x5A4D)
  let signatureOffset := data.uintAt 0x3C 4
  guard (0x40 ≤ signatureOffset ∧ signatureOffset + 24 ≤ data.size)
  guard (data.uintAt signatureOffset 4 = 0x4550 ∧ isSoundlyMarked data 0x40 signatureOffset)
  let count := data.uintAt (signatureOffset + 6) 2
  let optionalSize := data.uintAt (signatureOffset + 20) 2
  let optional ←
    if optionalSize = 0 then some none else some <$> OptionalHeader.of? data (signatureOffset + 24)
  let table := signatureOffset + 24 + optionalSize
  guard (count ≤ data.size / Section.entrySize ∧ table + count * Section.entrySize ≤ data.size)
  let sections := (List.range count).map fun i =>
    Section.ofBytesAt data (table + i * Section.entrySize)
  return ⟨signatureOffset, optionalSize, optional, sections⟩

end Headers

end IlSplice
