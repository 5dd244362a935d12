import IlSplice.Bytes

/-!
The sections of a portable executable.
-/

namespace IlSplice

/-- An entry of the section table. -/
structure Section where
  name : Bytes
  virtualSize : UInt32
  address : UInt32
  rawSize : UInt32
  rawOffset : UInt32
  deriving DecidableEq, Repr

namespace Section

/-- The bytes of an entry. -/
def entrySize : Nat := 40

/-- The bytes that the section takes in memory or in the file, whichever are more. -/
def extent (s : Section) : Nat := max s.virtualSize.toNat s.rawSize.toNat

/-- The first address behind the section. -/
def stop (s : Section) : Nat := s.address.toNat + s.extent

/-- Reads the entry at an offset. -/
def ofBytesAt (data : Bytes) (offset : Nat) : Section where
  name := data.extract offset (offset + 8)
  virtualSize := UInt32.ofNat (data.uintAt (offset + 8) 4)
  address := UInt32.ofNat (data.uintAt (offset + 12) 4)
  rawSize := UInt32.ofNat (data.uintAt (offset + 16) 4)
  rawOffset := UInt32.ofNat (data.uintAt (offset + 20) 4)

/-- The bytes of the section that a careful reader takes from the file. -/
def readSize (s : Section) (fileAlignment : Nat) : Nat :=
  let page := fun size => alignUp size 0x1000
  if s.rawSize = 0 then 0
  else
    let stop := alignUp (s.rawOffset.toNat + s.rawSize.toNat) fileAlignment
    let size := min (stop - s.rawOffset.toNat / 0x200 * 0x200) (page s.rawSize.toNat)
    if s.virtualSize = 0 then size else min size (page s.virtualSize.toNat)

end Section

end IlSplice
