import IlSplice.Proofs.Bytes.Reading
import IlSplice.Proofs.Image.Headers

/-! A section that is added behind all others. Old addresses lead where they led before, and the
addresses of the new section lead to its contents. -/

namespace IlSplice

open Bytes

theorem word_eq_ok {n : Nat} {w : UInt32} (h : word n = .ok w) : w.toNat = n := by
  unfold word at h
  split at h
  · cases h
    rw [UInt32.toNat_ofNat', Nat.mod_eq_of_lt (by simpa using ‹_›)]
  · cases h

namespace Image

variable {rva offset : Nat} {s : Section} {old more : List Section}

/-- An address that has an offset lies in a section, and so in front of the end of memory. -/
theorem lt_of_offsetIn (hOffset : offsetIn rva old = .ok offset) : ∃ s ∈ old, rva < s.stop := by
  induction old with
  | nil => cases hOffset
  | cons s rest ih =>
      rw [offsetIn] at hOffset
      split at hOffset
      · cases hOffset
      split at hOffset
      · rename_i hInside
        exact ⟨s, List.mem_cons_self .., hInside.2⟩
      · obtain ⟨s', hMem, hLess⟩ := ih hOffset
        exact ⟨s', List.mem_cons_of_mem _ hMem, hLess⟩

/-- Sections that are added do not change where an address leads. -/
theorem offsetIn_append (hOld : offsetIn rva old = .ok offset) :
    offsetIn rva (old ++ more) = .ok offset := by
  induction old with
  | nil => cases hOld
  | cons s rest ih =>
      rw [offsetIn] at hOld
      rw [List.cons_append, offsetIn]
      split at hOld
      · cases hOld
      · rename_i hFits
        rw [if_neg hFits]
        split at hOld
        · rename_i hInside
          rw [if_pos hInside, hOld]
        · rename_i hOutside
          rw [if_neg hOutside, ih hOld]

/-- An address behind all old sections can only lead to the new one. -/
theorem offsetIn_of_beyond (hBeyond : ∀ s ∈ old, s.stop ≤ rva)
    (hNew : offsetIn rva (old ++ [s]) = .ok offset) :
    s.stop < 0x100000000 ∧ s.address.toNat ≤ rva ∧ rva < s.stop ∧
      offset = rva - s.address.toNat + s.rawOffset.toNat := by
  induction old with
  | nil =>
      rw [List.nil_append, offsetIn] at hNew
      split at hNew
      · cases hNew
      rename_i hFits
      split at hNew
      · rename_i hInside
        cases hNew
        exact ⟨Nat.lt_of_not_le hFits, hInside.1, hInside.2, rfl⟩
      · cases hNew
  | cons first rest ih =>
      rw [List.forall_mem_cons] at hBeyond
      rw [List.cons_append, offsetIn] at hNew
      split at hNew
      · cases hNew
      rw [if_neg (fun hInside => Nat.not_lt.2 hBeyond.1 hInside.2)] at hNew
      exact ih hBeyond.2 hNew

/-- Behind the old sections, an address of the new one leads to its bytes. -/
theorem offsetIn_new (hBeyond : ∀ s ∈ old, s.stop ≤ rva) (hNew : s.stop < 0x100000000)
    (hStart : s.address.toNat ≤ rva) (hStop : rva < s.stop) :
    offsetIn rva (old ++ [s]) = .ok (rva - s.address.toNat + s.rawOffset.toNat) := by
  induction old with
  | nil => rw [List.nil_append, offsetIn, if_neg (Nat.not_le.2 hNew), if_pos ⟨hStart, hStop⟩]
  | cons first rest ih =>
      rw [List.forall_mem_cons] at hBeyond
      rw [List.cons_append, offsetIn, if_neg (by omega), if_neg (by omega)]
      exact ih hBeyond.2

end Image

namespace Placement

variable {image : Image} {p : Placement} {content out : Bytes}

theorem foldl_min_le (ns : List Nat) (n : Nat) :
    ns.foldl min n ≤ n ∧ ∀ m ∈ ns, ns.foldl min n ≤ m := by
  induction ns generalizing n with
  | nil => simp
  | cons m rest ih =>
      obtain ⟨hFirst, hRest⟩ := ih (min n m)
      rw [List.foldl_cons, List.forall_mem_cons]
      exact ⟨by omega, by omega, hRest⟩

theorem stop_le_memoryEnd {s : Section} (hMem : s ∈ image.headers.sections) :
    s.stop ≤ memoryEnd image := by
  unfold memoryEnd
  split
  · rename_i hNone
    rw [hNone] at hMem
    cases hMem
  · rename_i first rest hSome
    rw [hSome] at hMem
    obtain ⟨hFirst, hRest⟩ := foldl_max_le_iff.1
      (Nat.le_refl ((rest.map (·.stop)).foldl max first.stop))
    rcases List.mem_cons.1 hMem with rfl | hMem
    · exact hFirst
    · exact hRest _ (List.mem_map_of_mem hMem)

/-- What is known of the place that was found for a section. -/
structure FoundIn (p : Placement) (image : Image) : Prop where
  fileAlignment : isPowerOfTwo image.optional.fileAlignment.toNat
  memoryAlignment : isPowerOfTwo image.optional.sectionAlignment.toNat
  headerOffset_eq : p.headerOffset = image.headers.sectionTableOffset
    + image.headers.sections.length * Section.entrySize
  header_le : p.headerOffset + Section.entrySize ≤ headerLimit image
  free : isFree image.data p.headerOffset
  rva_eq : p.rva = alignUp (memoryEnd image) image.optional.sectionAlignment.toNat
  offset_eq : p.offset = alignUp image.data.size image.optional.fileAlignment.toNat

/-- All checks and computations of a placement are read off in one place, and later proofs refer to
their names. -/
theorem foundIn_of_of (hPlace : Placement.of image = .ok p) : p.FoundIn image := by
  unfold Placement.of at hPlace
  dsimp only at hPlace
  split at hPlace
  · cases hPlace
  rename_i hAligned
  simp only [Bool.or_eq_true, Bool.not_eq_true', not_or, Bool.not_eq_false] at hAligned
  split at hPlace
  · rename_i hRoom
    cases hPlace
    exact ⟨hAligned.1, hAligned.2, rfl, hRoom.1, hRoom.2, rfl, rfl⟩
  · cases hPlace

theorem pos_of_isPowerOfTwo {n : Nat} (h : isPowerOfTwo n) : 0 < n := by
  refine Nat.pos_of_ne_zero ?_
  rintro rfl
  simp [isPowerOfTwo] at h

/-- The new section starts behind all that the file had. -/
theorem FoundIn.size_le (hFound : p.FoundIn image) : image.data.size ≤ p.offset := by
  rw [hFound.offset_eq]
  exact le_alignUp _ (pos_of_isPowerOfTwo hFound.fileAlignment)

theorem FoundIn.header_room (hFound : p.FoundIn image) :
    p.headerOffset + Section.entrySize ≤ image.data.size := by
  have hFree := hFound.free
  simp only [isFree, Bool.and_eq_true, decide_eq_true_eq] at hFree
  exact hFree.1

/-- The entry of the new section goes where nothing but zeros was. -/
theorem FoundIn.getElem?_slot (hFound : p.FoundIn image) {i : Nat} (hStart : p.headerOffset ≤ i)
    (hStop : i < p.headerOffset + Section.entrySize) : image.data[i]? = some 0 := by
  have hFree := hFound.free
  simp only [isFree, Bool.and_eq_true, decide_eq_true_eq, Array.all_eq_true', beq_iff_eq] at hFree
  obtain ⟨hSize, hZero⟩ := hFree
  have hByte : (image.data.extract p.headerOffset (p.headerOffset + Section.entrySize))[
      i - p.headerOffset]? = image.data[i]? := by
    rw [Array.getElem?_extract, if_pos (by omega), Nat.add_sub_cancel' hStart]
  have hSome : image.data[i]? = some image.data[i] := Array.getElem?_eq_getElem (by omega)
  rw [hSome] at hByte ⊢
  rw [hZero _ (Array.mem_of_getElem? hByte)]

/-- A number that is not zero does not stand there. -/
theorem FoundIn.outside_slot (hFound : p.FoundIn image) {start width : Nat}
    (hNumber : image.data.uintAt start width ≠ 0) :
    start < p.headerOffset ∨ p.headerOffset + Section.entrySize < start + width := by
  by_contra hInside
  refine hNumber (uintAt_eq_zero fun i hFirst hLast => hFound.getElem?_slot ?_ ?_)
  all_goals omega

/-- The new entry fits the headers as the image states them, and stays in front of everything that
sections store. -/
theorem FoundIn.slot_le (hFound : p.FoundIn image) :
    p.headerOffset + Section.entrySize ≤ image.optional.sizeOfHeaders.toNat ∧
      ∀ s ∈ image.headers.sections, s.rawSize ≠ 0 →
        p.headerOffset + Section.entrySize ≤ s.rawOffset.toNat := by
  obtain ⟨hHeaders, hInFile⟩ := foldl_min_le
    ((image.headers.sections.filter (·.rawSize ≠ 0)).map (·.rawOffset.toNat))
    image.optional.sizeOfHeaders.toNat
  refine ⟨Nat.le_trans hFound.header_le hHeaders, fun s hMem hRaw => ?_⟩
  refine Nat.le_trans hFound.header_le (hInFile _ (List.mem_map_of_mem ?_))
  exact List.mem_filter.2 ⟨hMem, by simpa using hRaw⟩

/-- The addresses of the new section are behind those of all others. -/
theorem FoundIn.stop_le (hFound : p.FoundIn image) {s : Section}
    (hMem : s ∈ image.headers.sections) : s.stop ≤ p.rva := by
  refine Nat.le_trans (stop_le_memoryEnd hMem) ?_
  rw [hFound.rva_eq]
  exact le_alignUp _ (pos_of_isPowerOfTwo hFound.memoryAlignment)

theorem length_of_entry {size rawSize : Nat} {entry : List UInt8}
    (hEntry : p.entry size rawSize = .ok entry) : entry.length = Section.entrySize := by
  obtain ⟨_, _, hEntry⟩ := Except.bind_eq_ok.1 hEntry
  obtain ⟨_, _, hEntry⟩ := Except.bind_eq_ok.1 hEntry
  obtain ⟨_, _, hEntry⟩ := Except.bind_eq_ok.1 hEntry
  obtain ⟨_, _, hEntry⟩ := Except.bind_eq_ok.1 hEntry
  cases hEntry
  simp [sectionName, Section.entrySize]

/-- The entry of the new section is read back, whatever has become of the name. -/
theorem ofBytesAt_of_entry {size rawSize offset : Nat} {entry : List UInt8} {data : Bytes}
    (hEntry : p.entry size rawSize = .ok entry)
    (hHolds : data.Holds (offset + sectionName.length) (entry.drop sectionName.length)) :
    (Section.ofBytesAt data offset).address.toNat = p.rva ∧
      (Section.ofBytesAt data offset).rawOffset.toNat = p.offset ∧
      (Section.ofBytesAt data offset).virtualSize.toNat = size ∧
      (Section.ofBytesAt data offset).rawSize.toNat = rawSize := by
  obtain ⟨virtualSize, hVirtual, hEntry⟩ := Except.bind_eq_ok.1 hEntry
  obtain ⟨rva, hRva, hEntry⟩ := Except.bind_eq_ok.1 hEntry
  obtain ⟨raw, hRaw, hEntry⟩ := Except.bind_eq_ok.1 hEntry
  obtain ⟨rawOffset, hOffset, hEntry⟩ := Except.bind_eq_ok.1 hEntry
  cases hEntry
  simp only [List.append_assoc, List.drop_left, holds_append, length_leBytes, Nat.add_assoc]
    at hHolds
  obtain ⟨hVirtualSize, hAddress, hRawSize, hRawOffset, _⟩ := hHolds
  have hRead : ∀ {start : Nat} {w : UInt32}, data.Holds start (leBytes 4 w.toNat) →
      (UInt32.ofNat (data.uintAt start 4)).toNat = w.toNat := by
    intro start w hWord
    rw [hWord.uintAt_of_lt w.toNat_lt, UInt32.ofNat_toNat]
  exact ⟨(hRead hAddress).trans (word_eq_ok hRva), (hRead hRawOffset).trans (word_eq_ok hOffset),
    (hRead hVirtualSize).trans (word_eq_ok hVirtual), (hRead hRawSize).trans (word_eq_ok hRaw)⟩

/-- The fields of the headers that a new section changes. -/
def fields (p : Placement) (h : Headers) (entry : List UInt8) (dataSize memorySize : Nat) :
    List Field :=
  [⟨p.headerOffset, entry⟩,
    ⟨h.signatureOffset + sectionCountOffset, leBytes 2 (h.sections.length + 1)⟩,
    ⟨h.optionalOffset + dataSizeOffset, leBytes 4 dataSize⟩,
    ⟨h.optionalOffset + imageSizeOffset, leBytes 4 memorySize⟩]

/-- The file with the contents of the new section, before any header is changed. -/
def extended (p : Placement) (image : Image) (content : Bytes) : Bytes :=
  resize (resize image.data p.offset ++ content)
    (p.offset + alignUp content.size image.optional.fileAlignment.toNat)

/-- What is known of the file with the new section and of what its headers now say. -/
structure AppendedTo (p : Placement) (image : Image) (content : Bytes) (entry : List UInt8)
    (dataSize memorySize : Nat) (out : Bytes) : Prop where
  entry_eq : p.entry content.size (alignUp content.size image.optional.fileAlignment.toNat)
    = .ok entry
  count_lt : image.headers.sections.length + 1 < 0x10000
  /-- The sum of the data is read after the entry and the count have been written. -/
  dataSize_eq : ∃ middle, Overwrites (p.extended image content)
      [⟨p.headerOffset, entry⟩, ⟨image.headers.signatureOffset + sectionCountOffset,
        leBytes 2 (image.headers.sections.length + 1)⟩] middle ∧
    dataSize = middle.uintAt (image.headers.optionalOffset + dataSizeOffset) 4
      + alignUp content.size image.optional.fileAlignment.toNat
  dataSize_lt : dataSize < byteRange 4
  memorySize_eq : memorySize
    = alignUp (p.rva + content.size) image.optional.sectionAlignment.toNat
  memorySize_lt : memorySize < byteRange 4
  writes : Overwrites (p.extended image content)
    (p.fields image.headers entry dataSize memorySize) out

/-- What appending does, step by step: make room, overwrite the fields, and put the contents behind.
-/
theorem append_eq_ok (hAppend : p.append image content = .ok out) :
    ∃ entry dataSize memorySize, p.AppendedTo image content entry dataSize memorySize out := by
  unfold append at hAppend
  obtain ⟨entry, hEntry, hAppend⟩ := Except.bind_eq_ok.1 hAppend
  obtain ⟨first, hFirst, hAppend⟩ := Except.bind_eq_ok.1 hAppend
  dsimp only at hAppend
  split at hAppend
  · cases hAppend
  rename_i hCount
  obtain ⟨second, hSecond, hAppend⟩ := Except.bind_eq_ok.1 hAppend
  split at hAppend
  · cases hAppend
  rename_i hData
  obtain ⟨third, hThird, hAppend⟩ := Except.bind_eq_ok.1 hAppend
  obtain ⟨memorySize, hMemory, hAppend⟩ := Except.bind_eq_ok.1 hAppend
  exact ⟨entry, _, memorySize.toNat, hEntry, Nat.lt_of_not_le hCount,
    ⟨second, .cons hFirst (.cons hSecond .nil), rfl⟩, Nat.lt_of_not_le hData,
    word_eq_ok hMemory, memorySize.toNat_lt,
    .cons hFirst (.cons hSecond (.cons hThird (.cons hAppend .nil)))⟩

/-- The filling stands between the old file and the contents, so that both are found unchanged. -/
theorem agree_extended (hSize : image.data.size ≤ p.offset) (content : Bytes)
    (hAlign : 0 < image.optional.fileAlignment.toNat) :
    image.data.Agree (p.extended image content) 0 image.data.size ∧
      (p.extended image content).Holds p.offset content.toList := by
  have hContent := le_alignUp content.size hAlign
  have hOuter : Bytes.Agree (resize image.data p.offset ++ content) (p.extended image content) 0
      (resize image.data p.offset ++ content).size :=
    agree_resize _ (by rw [Array.size_append, size_resize]; omega)
  rw [Array.size_append, size_resize] at hOuter
  constructor
  · refine ((agree_resize image.data hSize).trans ?_).trans (hOuter.mono (Nat.le_refl _) (by omega))
    exact (agree_append _ content).mono (Nat.le_refl _) (by rwa [size_resize])
  · have hEnd := holds_end (resize image.data p.offset) content
    rw [size_resize] at hEnd
    refine hEnd.congr (hOuter.mono (Nat.zero_le _) ?_) ?_
    · rw [Array.length_toList]
    · rw [extended, size_resize, Array.length_toList]
      omega

end Placement

end IlSplice
