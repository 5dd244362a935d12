import IlSplice.Image

/-!
Room for one more section.

The new section goes behind everything else, in the file and in memory, and its entry goes behind
the section table. The bytes of that entry have to be free.
-/

namespace IlSplice

/-- A number that has to fit 32 bits. -/
def word (n : Nat) : Except Fault UInt32 :=
  if n < 0x100000000 then .ok (UInt32.ofNat n) else .error (.valueTooLarge n)

/-- Where a new section goes. -/
structure Placement where
  /-- The offset of its entry. -/
  headerOffset : Nat
  /-- The address of its contents. -/
  rva : Nat
  /-- The offset of its contents. -/
  offset : Nat
  deriving DecidableEq, Repr

namespace Placement

/-- The name of the new section. -/
def sectionName : List UInt8 := [0x2E, 0x63, 0x69, 0x6C, 0x70, 0x61, 0x74, 0]

/-- The section holds initialized data and can be read. -/
def characteristics : Nat := 0x40000040

/-- Where the file counts its sections, from the signature. -/
def sectionCountOffset : Nat := 6

/-- Where the optional header sums up the data of the sections. -/
def dataSizeOffset : Nat := 8

/-- Where the optional header states the size of the image in memory. -/
def imageSizeOffset : Nat := 56

/-- The end of the space for headers: their stated size, or the first section in the file. -/
def headerLimit (image : Image) : Nat :=
  let inFile := image.headers.sections.filter (·.rawSize ≠ 0)
  (inFile.map (·.rawOffset.toNat)).foldl min image.optional.sizeOfHeaders.toNat

/-- The first address behind all sections. -/
def memoryEnd (image : Image) : Nat :=
  match image.headers.sections with
  | [] => image.optional.sizeOfHeaders.toNat
  | first :: rest => (rest.map (·.stop)).foldl max first.stop

/-- All bytes of a section entry at the offset are there and are zero. -/
def isFree (data : Bytes) (offset : Nat) : Bool :=
  offset + Section.entrySize ≤ data.size
    && (data.extract offset (offset + Section.entrySize)).all (· == 0)

/-- Finds room for a section. -/
def of (image : Image) : Except Fault Placement :=
  let fileAlignment := image.optional.fileAlignment.toNat
  let memoryAlignment := image.optional.sectionAlignment.toNat
  if !isPowerOfTwo fileAlignment || !isPowerOfTwo memoryAlignment then
    .error (.badAlignment fileAlignment memoryAlignment)
  else
    let headerOffset := image.headers.sectionTableOffset
      + image.headers.sections.length * Section.entrySize
    if headerOffset + Section.entrySize ≤ headerLimit image ∧ isFree image.data headerOffset then
      .ok {
        headerOffset
        rva := alignUp (memoryEnd image) memoryAlignment
        offset := alignUp image.data.size fileAlignment }
    else .error .unsupported

/-- The entry of the new section. -/
def entry (p : Placement) (size rawSize : Nat) : Except Fault (List UInt8) := do
  let virtualSize ← word size
  let rva ← word p.rva
  let rawSize ← word rawSize
  let rawOffset ← word p.offset
  return sectionName ++ leBytes 4 virtualSize.toNat ++ leBytes 4 rva.toNat
    ++ leBytes 4 rawSize.toNat ++ leBytes 4 rawOffset.toNat ++ leBytes 12 0
    ++ leBytes 4 characteristics

/-- The file with the new section, all headers brought up to date. -/
def append (p : Placement) (image : Image) (content : Bytes) : Except Fault Bytes := do
  let headers := image.headers
  let rawSize := alignUp content.size image.optional.fileAlignment.toNat
  let out := Bytes.resize (Bytes.resize image.data p.offset ++ content) (p.offset + rawSize)
  let out ← out.overwrite p.headerOffset (← p.entry content.size rawSize)
  let count := headers.sections.length + 1
  if 0x10000 ≤ count then .error .tooManySections
  else
    let out ← out.overwrite (headers.signatureOffset + sectionCountOffset) (leBytes 2 count)
    let dataSize := out.uintAt (headers.optionalOffset + dataSizeOffset) 4 + rawSize
    if 0x100000000 ≤ dataSize then .error .dataSizeOverflow
    else
      let out ← out.overwrite (headers.optionalOffset + dataSizeOffset) (leBytes 4 dataSize)
      let memorySize ← word (alignUp (p.rva + content.size) image.optional.sectionAlignment.toNat)
      out.overwrite (headers.optionalOffset + imageSizeOffset) (leBytes 4 memorySize.toNat)

end Placement

end IlSplice
