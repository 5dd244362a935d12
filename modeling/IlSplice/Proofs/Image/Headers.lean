import IlSplice.Image.Placement
import IlSplice.Proofs.Bytes.Overwrite

/-! What headers are read from. Files with the same bytes in a few places have the same headers, up
to the entry of a new section behind the others. -/

namespace IlSplice

open Bytes

theorem Section.ofBytesAt_congr {data other : Bytes} {offset : Nat}
    (hAgree : data.Agree other offset (offset + Section.entrySize))
    (hData : offset + Section.entrySize ≤ data.size)
    (hOther : offset + Section.entrySize ≤ other.size) :
    Section.ofBytesAt data offset = Section.ofBytesAt other offset := by
  simp only [Section.entrySize] at hAgree hData hOther
  unfold Section.ofBytesAt
  rw [(hAgree.mono (Nat.le_refl _) (by omega)).extract (by omega) (by omega),
    (hAgree.mono (by omega) (by omega) : data.Agree other (offset + 8) (offset + 8 + 4)).uintAt,
    (hAgree.mono (by omega) (by omega) : data.Agree other (offset + 12) (offset + 12 + 4)).uintAt,
    (hAgree.mono (by omega) (by omega) : data.Agree other (offset + 16) (offset + 16 + 4)).uintAt,
    (hAgree.mono (by omega) (by omega) : data.Agree other (offset + 20) (offset + 20 + 4)).uintAt]

namespace OptionalHeader

theorem le_fieldSize (plus : Bool) : 96 ≤ fieldSize plus := by
  unfold fieldSize
  split <;> decide

/-- Where in the file the fields of a complete header stand. -/
structure ReadFrom (data : Bytes) (offset : Nat) (o : OptionalHeader) : Prop where
  magic : data.uintAt offset 2 = if o.plus then 0x20B else 0x10B
  imageBase_eq : o.imageBase.toNat
    = if o.plus then data.uintAt (offset + 24) 8 else data.uintAt (offset + 28) 4
  sectionAlignment_eq : o.sectionAlignment.toNat = data.uintAt (offset + 32) 4
  fileAlignment_eq : o.fileAlignment.toNat = data.uintAt (offset + 36) 4
  sizeOfHeaders_eq : o.sizeOfHeaders.toNat = data.uintAt (offset + 60) 4
  directories_eq : o.directories = (List.range o.directories.length).map fun i =>
    ⟨UInt32.ofNat (data.uintAt (offset + fieldSize o.plus + 8 * i) 4),
      UInt32.ofNat (data.uintAt (offset + fieldSize o.plus + 8 * i + 4) 4)⟩
  length_eq : o.directories.length = data.uintAt (offset + fieldSize o.plus - 4) 4
  length_le : o.directories.length ≤ maxDirectories
  size_ge : offset + fieldSize o.plus + 8 * o.directories.length ≤ data.size

/-- The first number of the header tells which of the two forms it has. -/
theorem ReadFrom.plus_eq {data : Bytes} {offset : Nat} {o : OptionalHeader}
    (h : o.ReadFrom data offset) : o.plus = decide (data.uintAt offset 2 = 0x20B) := by
  have hMagic := h.magic
  cases hPlus : o.plus <;> simp [hPlus] at hMagic <;> simp [hMagic]

/-- The base takes four or eight bytes, and fits its field either way. -/
theorem toNat_imageBase (data : Bytes) (offset : Nat) (plus : Prop) [Decidable plus] : (UInt64.ofNat
    (if plus then data.uintAt (offset + 24) 8 else data.uintAt (offset + 28) 4)).toNat
      = if plus then data.uintAt (offset + 24) 8 else data.uintAt (offset + 28) 4 := by
  rw [UInt64.toNat_ofNat']
  refine Nat.mod_eq_of_lt ?_
  split
  · exact uintAt_lt data _ 8
  · exact Nat.lt_trans (uintAt_lt data _ 4) (by decide)

/-- A header is read exactly from a file in which it is complete, and consists of what stands
there. -/
theorem of?_eq_some {data : Bytes} {offset : Nat} {o : OptionalHeader} :
    of? data offset = some o ↔ o.ReadFrom data offset := by
  unfold of?
  simp only [Option.bind_eq_bind, Option.bind_eq_some_iff, Option.guard_eq_some', exists_const]
  constructor
  · rintro ⟨⟨_, hMagic⟩, _, ⟨hFew, hSize⟩, hRead⟩
    cases hRead
    have hBase := toNat_imageBase data offset (data.uintAt offset 2 = 0x20B)
    refine ⟨?_, by simpa using hBase, toNat_ofNat_uintAt data _, toNat_ofNat_uintAt data _,
      toNat_ofNat_uintAt data _, by simp, by simp, by simpa using hFew, by simpa using hSize⟩
    rcases hMagic with hMagic | hMagic <;> simp [hMagic]
  · intro h
    have hPlus := h.plus_eq
    have hMagic := h.magic
    have hFields := le_fieldSize o.plus
    have hRoom := h.size_ge
    have hFew := h.length_le
    rw [h.length_eq] at hRoom hFew
    rw [← hPlus]
    refine ⟨⟨by omega, ?_⟩, by omega, ⟨hFew, hRoom⟩, ?_⟩
    · split at hMagic
      · exact .inr hMagic
      · exact .inl hMagic
    · have hWord : ∀ {w : UInt32} {start : Nat}, w.toNat = data.uintAt start 4 →
          UInt32.ofNat (data.uintAt start 4) = w := by
        intro w start hSame
        rw [← hSame, UInt32.ofNat_toNat]
      have hBase : UInt64.ofNat (if data.uintAt offset 2 = 0x20B then data.uintAt (offset + 24) 8
          else data.uintAt (offset + 28) 4) = o.imageBase := by
        have hSame := h.imageBase_eq
        rw [hPlus] at hSame
        simp only [decide_eq_true_eq] at hSame
        rw [← hSame, UInt64.ofNat_toNat]
      rw [hBase, hWord h.sectionAlignment_eq, hWord h.fileAlignment_eq, hWord h.sizeOfHeaders_eq,
        ← h.length_eq, ← h.directories_eq]
      rfl

/-- The bytes that decide where the CLI directory is and what it says. -/
def guides (o : OptionalHeader) (offset : Nat) : List Span :=
  let list := offset + fieldSize o.plus
  [⟨offset, offset + 2⟩, ⟨list - 4, list⟩,
    ⟨list + 8 * cliDirectory, list + 8 * cliDirectory + 8⟩]

/-- Where the file still has the magic number and the count of directories, and the entry of one of
them, this directory is what it was. -/
theorem ReadFrom.directory?_congr {data out : Bytes} {offset : Nat} {o o' : OptionalHeader}
    (hOld : o.ReadFrom data offset) (hNew : o'.ReadFrom out offset)
    (hAgree : ∀ s ∈ o.guides offset, data.Agree out s.start s.stop) (position : Nat)
    (hEntry : data.Agree out (offset + fieldSize o.plus + 8 * position)
      (offset + fieldSize o.plus + 8 * position + 8)) :
    o'.plus = o.plus ∧ o'.directory? position = o.directory? position := by
  simp only [guides, List.forall_mem_cons] at hAgree
  obtain ⟨hMagic, hCount, _⟩ := hAgree
  have hPlus : o'.plus = o.plus := by rw [hNew.plus_eq, hOld.plus_eq, hMagic.uintAt]
  have hSize := le_fieldSize o.plus
  have hLength : o'.directories.length = o.directories.length := by
    rw [hNew.length_eq, hOld.length_eq, hPlus]
    refine (Agree.uintAt (hCount.mono (Nat.le_refl _) ?_)).symm
    omega
  refine ⟨hPlus, ?_⟩
  unfold directory?
  congr 1
  rw [hNew.directories_eq, hOld.directories_eq, hLength, hPlus, List.getElem?_map,
    List.getElem?_map]
  by_cases hInside : position < o.directories.length
  · rw [List.getElem?_range hInside, Option.map_some, Option.map_some,
      (hEntry.mono (by omega) (by omega) : data.Agree out _ _).uintAt,
      (hEntry.mono (by omega) (by omega) : data.Agree out _ _).uintAt]
  · rw [List.getElem?_eq_none (by simpa using hInside)]
    rfl

/-- A header stays complete where these bytes stay and the file does not get shorter. -/
theorem ReadFrom.exists_of? {data out : Bytes} {offset : Nat} {o : OptionalHeader}
    (hOld : o.ReadFrom data offset)
    (hAgree : ∀ s ∈ o.guides offset, data.Agree out s.start s.stop)
    (hSize : data.size ≤ out.size) : ∃ o', of? out offset = some o' := by
  simp only [guides, List.forall_mem_cons] at hAgree
  obtain ⟨hMagic, hCount, _⟩ := hAgree
  have hFields := le_fieldSize o.plus
  have hRoom := hOld.size_ge
  have hFew := hOld.length_le
  have hSame : out.uintAt (offset + fieldSize o.plus - 4) 4 = o.directories.length := by
    rw [hOld.length_eq]
    refine (Agree.uintAt (hCount.mono (Nat.le_refl _) ?_)).symm
    omega
  have hPlus : decide (out.uintAt offset 2 = 0x20B) = o.plus := by
    rw [hOld.plus_eq, hMagic.uintAt]
  have hKind : out.uintAt offset 2 = 0x10B ∨ out.uintAt offset 2 = 0x20B := by
    have hKind := hOld.magic
    rw [hMagic.uintAt] at hKind
    split at hKind
    · exact .inr hKind
    · exact .inl hKind
  unfold of?
  simp only [Option.bind_eq_bind, Option.bind_eq_some_iff, Option.guard_eq_some', exists_const,
    hPlus, hSame]
  exact ⟨_, ⟨by omega, hKind⟩, by omega, ⟨hFew, by omega⟩, rfl⟩

end OptionalHeader

namespace Headers

/-- Where in the file complete headers stand. -/
structure ReadFrom (data : Bytes) (h : Headers) : Prop where
  magic : data.uintAt 0 2 = 0x5A4D
  signatureOffset_eq : h.signatureOffset = data.uintAt 0x3C 4
  signatureOffset_ge : 0x40 ≤ h.signatureOffset
  size_ge : h.optionalOffset ≤ data.size
  signature : data.uintAt h.signatureOffset 4 = 0x4550
  marked : isSoundlyMarked data 0x40 h.signatureOffset = true
  optionalSize_eq : h.optionalSize = data.uintAt (h.signatureOffset + 20) 2
  isNone_optional : h.optional = none ↔ h.optionalSize = 0
  optional : ∀ o ∈ h.optional, o.ReadFrom data h.optionalOffset
  length_eq : h.sections.length = data.uintAt (h.signatureOffset + Placement.sectionCountOffset) 2
  sections_eq : h.sections = (List.range h.sections.length).map fun i =>
    Section.ofBytesAt data (h.sectionTableOffset + i * Section.entrySize)
  table_le : h.sectionTableOffset + h.sections.length * Section.entrySize ≤ data.size

/-- Headers are read exactly from a file in which they are complete, and consist of what stands
there. -/
theorem of?_eq_some {data : Bytes} {h : Headers} : of? data = some h ↔ h.ReadFrom data := by
  unfold of?
  simp only [Option.bind_eq_bind, Option.bind_eq_some_iff, Option.guard_eq_some', exists_const]
  constructor
  · rintro ⟨⟨_, hMagic⟩, ⟨hStart, hRoom⟩, ⟨hSignature, hMarked⟩, hRest⟩
    split at hRest
    · rename_i hNone
      simp only [Option.bind_some, Option.bind_eq_some_iff, Option.guard_eq_some', exists_const]
        at hRest
      obtain ⟨⟨_, hTable⟩, hRest⟩ := hRest
      cases hRest
      exact ⟨hMagic, rfl, hStart, hRoom, hSignature, hMarked, rfl, by simpa using hNone, by simp,
        by simp [Placement.sectionCountOffset], by simp [sectionTableOffset, optionalOffset],
        by simpa [sectionTableOffset, optionalOffset] using hTable⟩
    · rename_i hSome
      simp only [Option.bind_eq_some_iff, Option.guard_eq_some', exists_const] at hRest
      obtain ⟨_, hOptional, ⟨_, hTable⟩, hRest⟩ := hRest
      obtain ⟨o, hRead, rfl⟩ := Option.map_eq_some_iff.1 hOptional
      cases hRest
      refine ⟨hMagic, rfl, hStart, hRoom, hSignature, hMarked, rfl, by simpa using hSome,
        fun o' hMem => ?_, by simp [Placement.sectionCountOffset],
        by simp [sectionTableOffset, optionalOffset],
        by simpa [sectionTableOffset, optionalOffset] using hTable⟩
      obtain rfl := Option.some.inj hMem
      exact OptionalHeader.of?_eq_some.1 hRead
  · intro h'
    have hStart := h'.signatureOffset_ge
    have hRoom := h'.size_ge
    have hTable := h'.table_le
    have hNone := h'.isNone_optional
    have hSections := h'.sections_eq
    rw [h'.length_eq, Placement.sectionCountOffset] at hTable hSections
    rw [sectionTableOffset, optionalOffset] at hTable hSections
    rw [optionalOffset] at hRoom
    rw [← h'.signatureOffset_eq, ← h'.optionalSize_eq]
    have hCount : data.uintAt (h.signatureOffset + 6) 2 ≤ data.size / Section.entrySize := by
      rw [Nat.le_div_iff_mul_le (by decide)]
      exact Nat.le_trans (Nat.le_add_left _ _) hTable
    refine ⟨⟨by omega, h'.magic⟩, ⟨hStart, hRoom⟩, ⟨h'.signature, h'.marked⟩, ?_⟩
    obtain ⟨start, size, optional, sections⟩ := h
    dsimp only at *
    cases optional with
    | none =>
        rw [if_pos (hNone.1 rfl)]
        simp [hCount, hTable, ← hSections]
    | some o =>
        rw [if_neg fun hZero => Option.some_ne_none o (hNone.2 hZero)]
        have hRead := OptionalHeader.of?_eq_some.2 (h'.optional o rfl)
        rw [optionalOffset] at hRead
        dsimp only at hRead
        rw [hRead]
        simp [hCount, hTable, ← hSections]

/-- The bytes that decide where the sections and the optional header are. -/
def guides (h : Headers) : List Span :=
  [⟨0x3C, 0x40⟩, ⟨h.signatureOffset + 20, h.signatureOffset + 22⟩,
    ⟨h.sectionTableOffset, h.sectionTableOffset + h.sections.length * Section.entrySize⟩]

/-- The section table with the entry behind it, where the bytes of the table have not changed. -/
theorem ReadFrom.sections_succ {data out : Bytes} {h : Headers} (hOld : h.ReadFrom data)
    (hTable : data.Agree out h.sectionTableOffset
      (h.sectionTableOffset + h.sections.length * Section.entrySize))
    (hSize : data.size ≤ out.size) : ((List.range (h.sections.length + 1)).map fun i =>
      Section.ofBytesAt out (h.sectionTableOffset + i * Section.entrySize))
        = h.sections ++ [Section.ofBytesAt out
          (h.sectionTableOffset + h.sections.length * Section.entrySize)] := by
  rw [List.range_succ, List.map_append, List.map_singleton]
  congr 1
  refine Eq.trans (List.map_congr_left fun i hi => ?_) hOld.sections_eq.symm
  have hi := List.mem_range.1 hi
  have hLe : (i + 1) * Section.entrySize ≤ h.sections.length * Section.entrySize :=
    Nat.mul_le_mul_right _ hi
  rw [Nat.add_mul, Nat.one_mul] at hLe
  have hEnd := hOld.table_le
  exact (Section.ofBytesAt_congr (hTable.mono (by omega) (by omega)) (by omega) (by omega)).symm

/-- Where the file counts one section more, the entry behind the others is read as well. -/
theorem ReadFrom.sections_of_count {data out : Bytes} {h h' : Headers} (hOld : h.ReadFrom data)
    (hNew : h'.ReadFrom out) (hAgree : ∀ s ∈ h.guides, data.Agree out s.start s.stop)
    (hSize : data.size ≤ out.size)
    (hCount : out.uintAt (h.signatureOffset + Placement.sectionCountOffset) 2
      = h.sections.length + 1) :
    h'.signatureOffset = h.signatureOffset ∧ h'.optionalSize = h.optionalSize ∧
      h'.sections = h.sections ++ [Section.ofBytesAt out
        (h.sectionTableOffset + h.sections.length * Section.entrySize)] := by
  simp only [guides, List.forall_mem_cons] at hAgree
  obtain ⟨hPointer, hOptional, hTable, _⟩ := hAgree
  have hSignature : h'.signatureOffset = h.signatureOffset := by
    rw [hNew.signatureOffset_eq, hOld.signatureOffset_eq, hPointer.symm.uintAt]
  have hOptionalSize : h'.optionalSize = h.optionalSize := by
    rw [hNew.optionalSize_eq, hOld.optionalSize_eq, hSignature, hOptional.symm.uintAt]
  have hTableOffset : h'.sectionTableOffset = h.sectionTableOffset := by
    rw [sectionTableOffset, optionalOffset, hSignature, hOptionalSize, sectionTableOffset,
      optionalOffset]
  have hLength : h'.sections.length = h.sections.length + 1 := by
    rw [hNew.length_eq, hSignature, hCount]
  refine ⟨hSignature, hOptionalSize, ?_⟩
  rw [hNew.sections_eq, hLength, hTableOffset]
  exact hOld.sections_succ hTable hSize

/-- The key and the start of the header are looked for in front of the place where it has to end. -/
theorem hasToolHeader_congr {data out : Bytes} {start mark stop : Nat}
    (hAgree : data.Agree out start stop) (hMark : start ≤ mark) :
    hasToolHeader out start mark stop = hasToolHeader data start mark stop := by
  have hNumber : ∀ {i : Nat}, start ≤ i → i + 4 ≤ stop → out.uintAt i 4 = data.uintAt i 4 :=
    fun hi hStop => (Agree.uintAt (hAgree.mono hi hStop)).symm
  unfold hasToolHeader
  by_cases hKey : mark + 8 ≤ stop
  · have hFirst : ∀ i ∈ List.range' start (mark - start),
        (out.uintAt i 4 ^^^ data.uintAt (mark + 4) 4 == toolStart)
          = (data.uintAt i 4 ^^^ data.uintAt (mark + 4) 4 == toolStart) := by
      intro i hi
      rw [List.mem_range'_1] at hi
      rw [hNumber hi.1 (by omega)]
    dsimp only
    rw [hNumber (by omega) (by omega), List.find?_congr hFirst]
  · simp [hKey]

/-- Whether build tools have left a complete header depends on the bytes it may lie in. -/
theorem isSoundlyMarked_congr {data out : Bytes} {start stop : Nat}
    (hAgree : data.Agree out start stop) (hData : stop ≤ data.size) (hOut : stop ≤ out.size) :
    isSoundlyMarked out start stop = isSoundlyMarked data start stop := by
  have hMarks : ∀ i ∈ List.range' start (stop - start - 3),
      ((out.extract i (i + 4)).toList == toolMark) =
        ((data.extract i (i + 4)).toList == toolMark) := by
    intro i hi
    rw [List.mem_range'_1] at hi
    rw [(hAgree.mono hi.1 (by omega)).extract (by omega) (by omega)]
  unfold isSoundlyMarked
  dsimp only
  rw [List.find?_congr hMarks]
  cases hMark : (List.range' start (stop - start - 3)).find? fun i =>
      (data.extract i (i + 4)).toList == toolMark with
  | none => rfl
  | some mark =>
      have hInside := List.mem_range'_1.1 (List.mem_of_find?_eq_some hMark)
      rw [Option.all_some, Option.all_some, hasToolHeader_congr hAgree hInside.1]

end Headers

namespace Image

variable {data out : Bytes} {image : Image}

/-- What an image that was accepted consists of. -/
structure ReadFrom (data : Bytes) (image : Image) : Prop where
  data_eq : image.data = data
  headers : image.headers.ReadFrom data
  optional_eq : image.headers.optional = some image.optional
  sound : Content.isSound ⟨data, image.headers.sections, image.optional⟩ = true
  cli_eq : image.optional.directory? OptionalHeader.cliDirectory = some image.cli

theorem ReadFrom.optional (h : image.ReadFrom data) :
    image.optional.ReadFrom data image.headers.optionalOffset :=
  h.headers.optional image.optional h.optional_eq

/-- A file is accepted exactly if its headers are complete and its directories make sense. -/
theorem ofBytes_eq_ok : ofBytes data = .ok image ↔ image.ReadFrom data := by
  constructor
  · intro hRead
    unfold ofBytes at hRead
    split at hRead
    · cases hRead
    split at hRead
    · cases hRead
    rename_i headers hHeaders
    split at hRead
    · cases hRead
    rename_i optional hOptional
    split at hRead
    · cases hRead
    rename_i hSound
    split at hRead
    · cases hRead
    rename_i cli hCli
    cases hRead
    exact ⟨rfl, Headers.of?_eq_some.1 hHeaders, hOptional, by simpa using hSound, hCli⟩
  · intro h
    have hSize : data.size ≠ 0 := by
      have hStart := h.headers.signatureOffset_ge
      have hRoom := h.headers.size_ge
      rw [Headers.optionalOffset] at hRoom
      omega
    rw [ofBytes, if_neg hSize, Headers.of?_eq_some.2 h.headers]
    simp only [h.optional_eq, h.sound, h.cli_eq]
    rw [← h.data_eq]
    rfl

end Image

end IlSplice
