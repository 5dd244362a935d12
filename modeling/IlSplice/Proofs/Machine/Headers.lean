import IlSplice.Proofs.Machine.Reading
import IlSplice.Proofs.Metadata.Located

/-! The headers on the way to the metadata, read in words. The sizes and offsets in them come from
the data, and each is checked before a byte is taken from where it leads. -/

namespace IlSplice

open Machine Reading

variable {s : Slice}

theorem Scan.evalAt_uint (data : Bytes) (width position : Nat) :
    Scan.evalAt (Scan.uint width) data position =
      if position + width ≤ data.size then .ok (data.uintAt position width)
      else .error .outOfBounds := by
  unfold Scan.evalAt Scan.uint
  split_ifs <;> rfl

theorem Scan.evalAt_u16 (data : Bytes) (position : Nat) : Scan.evalAt Scan.u16 data position =
    if position + 2 ≤ data.size then .ok (UInt16.ofNat (data.uintAt position 2))
    else .error .outOfBounds := by
  unfold Scan.evalAt
  by_cases h : position + 2 ≤ data.size
  · rw [if_pos h, Scan.u16, Scan.bind_of_ok (show Scan.uint 2 data position = _ from if_pos h)]
    rfl
  · rw [if_neg h, Scan.u16, Scan.bind_of_error (show Scan.uint 2 data position = _ from if_neg h)]

namespace CliHeader

/-- Reads an address and a size. -/
def readExtent : Reading Extent := return ⟨← u32, ← u32⟩

/-- Reads the fields and checks each as it is read. -/
def readFields : Reading CliHeader := do
  let size ← u32
  if size.toNat ≠ byteSize then fault (.cliHeaderSize size.toNat)
  else
    let majorRuntime ← u16
    let minorRuntime ← u16
    let metadataRva ← u32
    if metadataRva = 0 then fault .metadataAtZero
    else
      let metadataSize ← u32
      if metadataSize = 0 then fault .metadataEmpty
      else if maxMetadataSize < metadataSize.toNat then
        fault (.metadataTooLarge metadataSize.toNat)
      else
        let flags ← u32
        let entryPoint ← u32
        let resources ← readExtent
        let strongName ← readExtent
        skip 8
        let vtableFixups ← readExtent
        return ⟨size, majorRuntime, minorRuntime, ⟨metadataRva, metadataSize⟩, flags, entryPoint,
          resources, strongName, vtableFixups⟩

/-- Reads the header at the start of the data. -/
def read (s : Slice) : Machine CliHeader :=
  if s.bytes.size < byteSize then fail .outOfBounds else readFields.evalAt s 0

theorem follows_readExtent {start : Nat} : Follows readExtent scanExtent s start :=
  follows_u32.bind fun _ _ _ => follows_u32.bind fun _ _ _ => follows_pure _

/-- The fields are read in their order, and a fault in one of them hides faults in later ones. -/
theorem follows_readFields : Follows readFields scan s 0 := by
  refine follows_u32.bind fun size _ _ => ?_
  split
  · exact follows_fault _
  refine follows_u16.bind fun _ _ _ => follows_u16.bind fun _ _ _ =>
    follows_u32.bind fun _ _ _ => ?_
  split
  · exact follows_fault _
  refine follows_u32.bind fun _ _ _ => ?_
  split
  · exact follows_fault _
  split
  · exact follows_fault _
  exact follows_u32.bind fun _ _ _ => follows_u32.bind fun _ _ _ =>
    follows_readExtent.bind fun _ _ _ => follows_readExtent.bind fun _ _ _ =>
      (follows_skip 8).bind fun _ _ _ => follows_readExtent.bind fun _ _ _ => follows_pure _

/-- Whatever the bytes are, reading the CLI header in words ends as reading it does. -/
theorem read_eq (s : Slice) : read s = ofChecked (ofBytes s.bytes) := by
  unfold read ofBytes
  split
  · rfl
  · exact follows_readFields.evalAt

end CliHeader

namespace StreamEntry

/-- Reads the bytes of a name from the one at `index` on, until one is zero and at most `count`.
The index counts from behind the numbers of the entry. -/
def readName (s : Slice) : Nat → Nat → Machine (List UInt8)
  | 0, _ => .ok []
  | count + 1, index => do
    let b := UInt8.ofNat (← s.numberFrom 1 (← fit 64 (8 + index)))
    if b = 0 then return []
    else
      let bs ← readName s count (index + 1)
      return b :: bs

/-- Reads the entry at the start of the data. -/
def read (s : Slice) : Machine StreamEntry := do
  if s.bytes.size < 9 then fail .outOfBounds
  else
    let room ← sub s.bytes.size 8
    let name := Bytes.latin1 (← readName s (min maxName room) 0)
    if name ∈ knownNames then
      let offset ← s.number 4
      let size ← s.numberFrom 4 4
      return ⟨UInt32.ofNat offset, UInt32.ofNat size, name⟩
    else fail (.streamName name)

/-- The bytes of the entry. -/
def sizeWord (e : StreamEntry) : Machine Nat := do
  let nameSize ← Machine.alignUp (← fit 64 (e.name.utf8ByteSize + 1)) 4
  fit 64 (8 + nameSize)

/-- By induction on how many bytes may follow. The name ends in front of the first zero. -/
theorem readName_eq {count index : Nat} (h : 8 + index + count ≤ s.bytes.size) :
    readName s count index = .ok ((s.bytes.extract (8 + index)
      (8 + index + count)).toList.takeWhile (· ≠ 0)) := by
  have hSize := s.size_lt
  induction count generalizing index with
  | zero => simp [readName]
  | succ count ih =>
      have hInside : 8 + index < s.bytes.size := by
        omega
      have hByte : s.bytes.uintAt (8 + index) 1 = s.bytes[8 + index].toNat := by
        simp [Bytes.uintAt, hInside]
      have hSplit : (s.bytes.extract (8 + index) (8 + index + (count + 1))).toList
          = s.bytes[8 + index] ::
            (s.bytes.extract (8 + (index + 1)) (8 + (index + 1) + count)).toList := by
        rw [Array.toList_extract, Array.toList_extract, List.extract_eq_take_drop,
          List.extract_eq_take_drop, List.drop_eq_getElem_cons (by simpa using hInside),
          show 8 + index + (count + 1) - (8 + index) = count + 1 by omega,
          show 8 + (index + 1) + count - (8 + (index + 1)) = count by omega,
          List.take_succ_cons, Array.getElem_toList, Nat.add_assoc]
      rw [readName, fit_of_lt (by omega), ok_bind, Slice.numberFrom_of_le (by omega), ok_bind,
        hByte, UInt8.ofNat_toNat, hSplit]
      dsimp only
      by_cases hZero : s.bytes[8 + index] = 0
      · rw [if_pos hZero, List.takeWhile_cons_of_neg (by simpa using hZero)]
        rfl
      · rw [if_neg hZero, List.takeWhile_cons_of_pos (by simpa using hZero), ih (by omega)]
        rfl

theorem read_eq (s : Slice) : read s = ofChecked (ofBytes s.bytes) := by
  unfold read ofBytes
  split
  · rfl
  rename_i hSize
  have hName : (s.bytes.extract (8 + 0) (8 + 0 + min maxName (s.bytes.size - 8))).toList
      = (s.bytes.extract 8 (8 + maxName)).toList := by
    congr 1
    apply Array.ext_getElem?
    intro i
    rw [Array.getElem?_extract, Array.getElem?_extract]
    congr 1
    rw [eq_iff_iff]
    omega
  rw [sub_of_le (by omega), ok_bind, readName_eq (by omega), hName]
  dsimp only [ok_bind]
  split
  · rw [Slice.number_of_le (by omega), ok_bind, Slice.numberFrom_of_le (by omega)]
    rfl
  · rfl

/-- The names that are accepted are short, and so entries are. -/
theorem byteSize_le {e : StreamEntry} (hName : e.name ∈ knownNames) : e.byteSize ≤ 8 + 36 := by
  have hShort : e.name.utf8ByteSize < 32 := (readable_of_mem_knownNames _ hName).2.2
  unfold byteSize nameSize alignUp
  omega

theorem sizeWord_eq {e : StreamEntry} (hName : e.name ∈ knownNames) :
    e.sizeWord = .ok e.byteSize := by
  have hShort : e.name.utf8ByteSize < 32 := (readable_of_mem_knownNames _ hName).2.2
  have hSize := byteSize_le hName
  unfold byteSize nameSize at hSize
  rw [sizeWord, fit_of_lt (by omega), ok_bind, alignUp_eq (by decide) (by omega), ok_bind,
    fit_of_lt (by omega)]
  rfl

end StreamEntry

namespace Root

/-- Reads `count` entries from an offset on; all streams have to lie inside the data. -/
def readEntries (s : Slice) : Nat → Nat → Machine (List StreamEntry)
  | 0, _ => .ok []
  | count + 1, offset => do
    if s.bytes.size < offset then fail .outOfBounds
    else
      let entry ← StreamEntry.read (← s.drop offset)
      match checkedAdd 32 entry.offset.toNat entry.size.toNat with
      | none => fail (.streamOverflow entry.offset.toNat entry.size.toNat)
      | some stop =>
        if s.bytes.size < stop then fail .outOfBounds
        else
          let next ← fit 64 (offset + (← entry.sizeWord))
          let entries ← readEntries s count next
          return entry :: entries

/-- Reads the root at the start of the metadata. The version text ends within 64 bits, whatever
its length says. -/
def read (s : Slice) : Machine Root := do
  if s.bytes.size < 36 then fail .outOfBounds
  else
    let signature ← s.number 4
    if signature ≠ magic then fail (.badSignature signature)
    else
      let (length, _) ← s.numberAt 4 12
      let versionStop ← fit 64 (length + 16)
      if s.bytes.size < versionStop then fail .outOfBounds
      else
        let version ← s.part 16 versionStop
        let (flags, cursor) ← s.numberAt 2 versionStop
        let (count, cursor) ← s.numberAt 2 cursor
        if count = 0 ∨ maxStreams < count then fail (.streamCount count)
        else
          let streams ← readEntries s count cursor
          let major ← s.numberFrom 2 4
          let minor ← s.numberFrom 2 6
          let reserved ← s.numberFrom 4 8
          return {
            signature := UInt32.ofNat signature
            major := UInt16.ofNat major
            minor := UInt16.ofNat minor
            reserved := UInt32.ofNat reserved
            length := UInt32.ofNat length
            version := Bytes.latin1 (version.bytes.toList.takeWhile (· ≠ 0))
            flags := UInt16.ofNat flags
            streams := streams }

/-- By induction on the number of entries. The sum of offset and size is checked before it is
compared with the data. -/
theorem readEntries_eq (s : Slice) (count offset : Nat) :
    readEntries s count offset = ofChecked (readStreams s.bytes count offset) := by
  induction count generalizing offset with
  | zero => rfl
  | succ count ih =>
      have hSize := s.size_lt
      rw [readEntries, readStreams, Bytes.slice, show (0x100000000 : Nat) = 2 ^ 32 from rfl]
      by_cases hOffset : offset ≤ s.bytes.size
      · obtain ⟨rest, hDrop, hBytes, -⟩ := Slice.drop_of_le hOffset
        rw [if_neg (Nat.not_lt.2 hOffset), if_pos ⟨hOffset, Nat.le_refl _⟩, hDrop, ok_bind,
          StreamEntry.read_eq, hBytes]
        refine bind_ofChecked fun entry hEntry => ?_
        unfold checkedAdd
        by_cases hRange : entry.offset.toNat + entry.size.toNat < 2 ^ 32
        · rw [if_pos hRange, if_neg (Nat.not_le.2 hRange)]
          dsimp only
          by_cases hStop : s.bytes.size < entry.offset.toNat + entry.size.toNat
          · rw [if_pos hStop, if_pos hStop]
            rfl
          · have hName := StreamEntry.name_mem_of_ofBytes hEntry
            have hShort := StreamEntry.byteSize_le hName
            rw [if_neg hStop, if_neg hStop, StreamEntry.sizeWord_eq hName, ok_bind,
              fit_of_lt (by omega), ok_bind, ih]
            exact bind_ofChecked fun entries _ => rfl
        · rw [if_neg hRange, if_pos (Nat.le_of_not_lt hRange)]
          rfl
      · rw [if_pos (Nat.lt_of_not_le hOffset), if_neg fun h => hOffset h.1]
        rfl

/-- Whatever the bytes are, reading the root in words ends as reading it does. -/
theorem read_eq (s : Slice) : read s = ofChecked (ofBytes s.bytes) := by
  unfold read ofBytes
  split
  · rfl
  rename_i hSize
  have hLength : s.bytes.uintAt 12 4 < 2 ^ 32 := Bytes.uintAt_lt s.bytes 12 4
  rw [Slice.number_of_le (by omega), ok_bind]
  dsimp only
  split
  · rfl
  rw [Slice.numberAt_of_le (by omega), ok_bind]
  dsimp only
  rw [fit_of_lt (by omega), ok_bind, Bytes.slice, Nat.add_comm (s.bytes.uintAt 12 4) 16]
  by_cases hVersion : 16 + s.bytes.uintAt 12 4 ≤ s.bytes.size
  · obtain ⟨version, hPart, hBytes⟩ := Slice.part_of_le (Nat.le_add_right 16 _) hVersion
    rw [if_neg (by omega), if_pos ⟨by omega, hVersion⟩, hPart, ok_bind, Scan.evalAt_u16,
      Scan.evalAt_uint, Slice.numberAt_eq]
    by_cases hFlags : 16 + s.bytes.uintAt 12 4 + 2 ≤ s.bytes.size
    · rw [if_pos hFlags, if_pos hFlags, ok_bind]
      dsimp only
      rw [Slice.numberAt_eq]
      by_cases hCount : 16 + s.bytes.uintAt 12 4 + 2 + 2 ≤ s.bytes.size
      · rw [if_pos hCount, if_pos hCount, ok_bind]
        dsimp only
        change _ = ofChecked (if _ then _ else _)
        split
        · rfl
        rw [readEntries_eq, Slice.numberFrom_of_le (by omega), Slice.numberFrom_of_le (by omega),
          Slice.numberFrom_of_le (by omega), hBytes]
        exact bind_ofChecked fun streams _ => rfl
      · rw [if_neg hCount, if_neg hCount]
        rfl
    · rw [if_neg hFlags, if_neg hFlags]
      rfl
  · rw [if_pos (by omega), if_neg (by omega)]
    rfl

end Root

namespace Metadata

variable {image : Image} {md : Metadata}

/-- Takes a part of a file, of `length` bytes. -/
def filePart (file : Slice) (offset length : Nat) : Machine Slice := do
  let stop ← endWithin file.bytes.size offset length
  file.part offset stop

/-- Takes the contents of the first stream of a name from the file, if there is one. -/
def readStream? (md : Metadata) (file : Slice) (name : String) : Machine (Option Bytes) :=
  match md.root.stream? name with
  | none => .ok none
  | some entry => do
    let stop ← fit 64 (entry.offset.toNat + entry.size.toNat)
    if md.cli.metadata.size.toNat < stop then fail .outOfBounds
    else
      let start ← fit 64 (md.offset + entry.offset.toNat)
      let part ← filePart file start entry.size.toNat
      return some part.bytes

/-- The contents of the first stream of a name, without any check that they are there. -/
def contents? (md : Metadata) (name : String) : Option Bytes :=
  (md.root.stream? name).map fun entry =>
    md.block.extract entry.offset.toNat (entry.offset.toNat + entry.size.toNat)

/-- A part of a file is taken by its offset and its length, whose sum is a word if the part is in
the file. -/
theorem filePart_of_le {offset length : Nat} (h : offset + length ≤ s.bytes.size) :
    ∃ part : Slice, filePart s offset length = .ok part ∧
      part.bytes = s.bytes.extract offset (offset + length) := by
  obtain ⟨part, hPart, hBytes⟩ := Slice.part_of_le (Nat.le_add_right offset length) h
  exact ⟨part, by rw [filePart, endWithin_eq s.size_lt, if_pos h, ok_bind, hPart], hBytes⟩

/-- The bounds of a stream were checked against the metadata when the root was read, and those of
the metadata against the file. So nothing is left to be checked. -/
theorem FoundIn.readStream?_eq (hFound : md.FoundIn image) (hFile : image.data = s.bytes)
    (name : String) : md.readStream? s name = .ok (md.contents? name) := by
  have hStream := hFound.stream?_eq name
  unfold readStream? contents?
  unfold stream? at hStream
  cases hEntry : md.root.stream? name with
  | none => rfl
  | some entry =>
      rw [hEntry] at hStream
      dsimp only at hStream ⊢
      have hOffset := entry.offset.toNat_lt
      have hLength := entry.size.toNat_lt
      have hSize := s.size_lt
      rw [fit_of_lt (by omega), ok_bind]
      split at hStream
      · cases hStream
      rename_i hInside
      obtain ⟨found, hSlice, hSame⟩ := Except.map_eq_ok.1 hStream
      obtain ⟨-, hStop, rfl⟩ := Bytes.slice_eq_ok hSlice
      rw [hFound.image_eq, hFile] at hStop hSame
      obtain ⟨part, hPart, hBytes⟩ := filePart_of_le hStop
      rw [if_neg hInside, fit_of_lt (by omega), ok_bind, hPart, ← hSame, ← hBytes]
      rfl

/-- No check of a stream fails in metadata that was found in an image. -/
theorem locate_stream (image : Image) (name : String) :
    (locate image >>= fun md => md.stream? name)
      = (locate image >>= fun md => .ok (md.contents? name)) := by
  cases hLocate : locate image with
  | error fault => rfl
  | ok md => exact (foundIn_of_locate hLocate).stream?_eq name

/-- Together with where the metadata is found, a stream is taken without a trap from any file. -/
theorem locate_readStream (hFile : image.data = s.bytes) (name : String) :
    (ofChecked (locate image) >>= fun md => md.readStream? s name)
      = ofChecked (locate image >>= fun md => md.stream? name) := by
  refine bind_ofChecked fun md hLocate => ?_
  have hFound := foundIn_of_locate hLocate
  rw [hFound.readStream?_eq hFile, hFound.stream?_eq]
  rfl

end Metadata

end IlSplice
