import IlSplice.Bytes.Scan

/-!
The root of the metadata.

It carries the version of the runtime and the directory of streams. Offsets in the directory
count from the start of the root.
-/

namespace IlSplice

/-- An entry of the directory of streams. -/
structure StreamEntry where
  offset : UInt32
  size : UInt32
  name : String
  deriving DecidableEq, Repr

namespace StreamEntry

/-- The streams that a directory may list. -/
def knownNames : List String := ["#Strings", "#US", "#Blob", "#GUID", "#~", "#-"]

/-- The longest name that is looked at. -/
def maxName : Nat := 32

/-- Reads the entry at the start of the data. Its name ends at a zero byte. -/
def ofBytes (data : Bytes) : Except Fault StreamEntry :=
  if data.size < 9 then .error .outOfBounds
  else
    let name := Bytes.latin1 ((data.extract 8 (8 + maxName)).toList.takeWhile (· ≠ 0))
    if name ∈ knownNames then
      .ok ⟨UInt32.ofNat (data.uintAt 0 4), UInt32.ofNat (data.uintAt 4 4), name⟩
    else .error (.streamName name)

/-- The bytes of the name with at least one zero behind it. -/
def nameSize (e : StreamEntry) : Nat := alignUp (e.name.utf8ByteSize + 1) 4

/-- The bytes of the entry. -/
def byteSize (e : StreamEntry) : Nat := 8 + e.nameSize

/-- The entry as it stands in the directory. -/
def encode (e : StreamEntry) : Bytes :=
  (leBytes 4 e.offset.toNat ++ leBytes 4 e.size.toNat).toArray
    ++ Bytes.resize (Bytes.ofUtf8 e.name) e.nameSize

end StreamEntry

/-- The root of the metadata. -/
structure Root where
  signature : UInt32
  major : UInt16
  minor : UInt16
  reserved : UInt32
  /-- The size of the field that holds the version text. -/
  length : UInt32
  version : String
  flags : UInt16
  streams : List StreamEntry
  deriving DecidableEq, Repr

namespace Root

/-- The number that every root starts with. -/
def magic : Nat := 0x424A5342

/-- The most streams that a directory may list. -/
def maxStreams : Nat := 6

/-- Reads `count` entries from an offset on; all streams have to lie inside the data. -/
def readStreams (data : Bytes) : Nat → Nat → Except Fault (List StreamEntry)
  | 0, _ => .ok []
  | count + 1, offset => do
    let entry ← StreamEntry.ofBytes (← data.slice offset data.size)
    let stop := entry.offset.toNat + entry.size.toNat
    if 0x100000000 ≤ stop then .error (.streamOverflow entry.offset.toNat entry.size.toNat)
    else if data.size < stop then .error .outOfBounds
    else return entry :: (← readStreams data count (offset + entry.byteSize))

/-- Reads the root at the start of the whole metadata. -/
def ofBytes (data : Bytes) : Except Fault Root := do
  if data.size < 36 then .error .outOfBounds
  else
    let signature := data.uintAt 0 4
    if signature ≠ magic then .error (.badSignature signature)
    else
      let length := data.uintAt 12 4
      let versionStop := 16 + length
      let version ← data.slice 16 versionStop
      let flags ← Scan.evalAt Scan.u16 data versionStop
      let count ← Scan.evalAt (Scan.uint 2) data (versionStop + 2)
      if count = 0 ∨ maxStreams < count then .error (.streamCount count)
      else
        let streams ← readStreams data count (versionStop + 4)
        return {
          signature := UInt32.ofNat signature
          major := UInt16.ofNat (data.uintAt 4 2)
          minor := UInt16.ofNat (data.uintAt 6 2)
          reserved := UInt32.ofNat (data.uintAt 8 4)
          length := UInt32.ofNat length
          version := Bytes.latin1 (version.toList.takeWhile (· ≠ 0))
          flags := flags
          streams := streams }

/-- The first stream of a name. -/
def stream? (r : Root) (name : String) : Option StreamEntry := r.streams.find? (·.name == name)

/-- The bytes of the version field when it is written. -/
def versionSize (r : Root) : Nat := alignUp r.length.toNat 4

/-- The bytes of the root and its directory. -/
def byteSize (r : Root) : Nat :=
  16 + r.versionSize + 4 + r.streams.foldr (fun entry size => entry.byteSize + size) 0

/-- The root and its directory as they are written. -/
def encode (r : Root) : Except Fault Bytes :=
  if 0x10000 ≤ r.streams.length then .error .tooManyStreams
  else
    .ok ((leBytes 4 r.signature.toNat ++ leBytes 2 r.major.toNat ++ leBytes 2 r.minor.toNat
        ++ leBytes 4 r.reserved.toNat ++ leBytes 4 r.versionSize).toArray
      ++ Bytes.resize (Bytes.ofUtf8 r.version) r.versionSize
      ++ (leBytes 2 r.flags.toNat ++ leBytes 2 r.streams.length).toArray
      ++ (r.streams.map StreamEntry.encode).foldl (· ++ ·) #[])

end Root

end IlSplice
