import IlSplice.Bytes.Scan

/-!
The CLI header, which leads from the container to the metadata.
-/

namespace IlSplice

/-- An address in memory and a size. -/
structure Extent where
  rva : UInt32
  size : UInt32
  deriving DecidableEq, Repr

/-- The CLI header of an image. -/
structure CliHeader where
  size : UInt32
  majorRuntime : UInt16
  minorRuntime : UInt16
  metadata : Extent
  flags : UInt32
  entryPoint : UInt32
  resources : Extent
  strongName : Extent
  vtableFixups : Extent
  deriving DecidableEq, Repr

namespace CliHeader

/-- The size of the header. -/
def byteSize : Nat := 72

/-- Where the header holds the address of the metadata. -/
def metadataRvaOffset : Nat := 8

/-- Where the header holds the size of the metadata. -/
def metadataSizeOffset : Nat := 12

/-- Where the header holds its flags. -/
def flagsOffset : Nat := 16

/-- The flag of an image with a strong name signature. -/
def strongNameSigned : Nat := 3

/-- The largest metadata that is accepted. -/
def maxMetadataSize : Nat := 0x10000000

/-- Reads an address and a size. -/
def scanExtent : Scan Extent := return ⟨← Scan.u32, ← Scan.u32⟩

/-- Reads the fields and checks each as it is read. -/
def scan : Scan CliHeader := do
  let size ← Scan.u32
  if size.toNat ≠ byteSize then throw (.cliHeaderSize size.toNat)
  else
    let majorRuntime ← Scan.u16
    let minorRuntime ← Scan.u16
    let metadataRva ← Scan.u32
    if metadataRva = 0 then throw .metadataAtZero
    else
      let metadataSize ← Scan.u32
      if metadataSize = 0 then throw .metadataEmpty
      else if maxMetadataSize < metadataSize.toNat then
        throw (.metadataTooLarge metadataSize.toNat)
      else
        let flags ← Scan.u32
        let entryPoint ← Scan.u32
        let resources ← scanExtent
        let strongName ← scanExtent
        Scan.skip 8
        let vtableFixups ← scanExtent
        return ⟨size, majorRuntime, minorRuntime, ⟨metadataRva, metadataSize⟩, flags, entryPoint,
          resources, strongName, vtableFixups⟩

/-- The header at the start of the data. All of it has to be there before any field counts. -/
def ofBytes (data : Bytes) : Except Fault CliHeader :=
  if data.size < byteSize then .error .outOfBounds else Scan.evalAt scan data 0

end CliHeader

end IlSplice
