import IlSplice.Proofs.Metadata.Located

/-! The file that is written. In front it is the old file up to a few fields of the headers, and
behind that the contents of a new section, which the CLI header now leads to. -/

namespace IlSplice

open Bytes

/-- The bytes that decide where everything else in the file is. -/
def Image.guides (image : Image) : List Span :=
  image.headers.guides ++ image.optional.guides image.headers.optionalOffset

namespace Placement

/-- The parts of the headers that a new section changes. -/
def spans (p : Placement) (h : Headers) : List Span :=
  [⟨p.headerOffset, p.headerOffset + Section.entrySize⟩,
    ⟨h.signatureOffset + sectionCountOffset, h.signatureOffset + sectionCountOffset + 2⟩,
    ⟨h.optionalOffset + dataSizeOffset, h.optionalOffset + dataSizeOffset + 4⟩,
    ⟨h.optionalOffset + imageSizeOffset, h.optionalOffset + imageSizeOffset + 4⟩]

/-- The four fields of the headers are where they should be, whatever is written to them. -/
theorem span_fields (p : Placement) (h : Headers) {entry : List UInt8} (dataSize memorySize : Nat)
    (hEntry : entry.length = Section.entrySize) :
    (p.fields h entry dataSize memorySize).map Field.span = p.spans h := by
  simp [fields, spans, Field.span, hEntry]

end Placement

/-- The parts of the file that are brought up to date in place. -/
def Metadata.updated (md : Metadata) (p : Placement) : List Span :=
  p.spans md.image.headers ++ [⟨md.cliOffset, md.cliOffset + CliHeader.byteSize⟩]

/-- The bytes in these parts that may become others. Of the CLI header they are the address and the
size of the metadata and the flags. -/
def Metadata.written (md : Metadata) (p : Placement) : List Span :=
  p.spans md.image.headers
    ++ [⟨md.cliOffset + CliHeader.metadataRvaOffset, md.cliOffset + CliHeader.flagsOffset + 4⟩]

/-- What lies apart from a part that is updated lies apart from the bytes that change in it. -/
theorem Metadata.apart_written {md : Metadata} {p : Placement} {s : Span}
    (hApart : ∀ u ∈ md.updated p, u.Apart s) : ∀ u ∈ md.written p, u.Apart s := by
  rw [updated, List.forall_mem_append, List.forall_mem_singleton] at hApart
  rw [written, List.forall_mem_append, List.forall_mem_singleton]
  refine ⟨hApart.1, (hApart.2.symm.mono (Nat.le_add_right _ _) ?_).symm⟩
  rw [Nat.add_assoc]
  exact Nat.add_le_add_left (by decide) _

namespace Module

variable {image : Image} {md : Metadata} {p : Placement} {content data out : Bytes}
  {rva size : UInt32}

/-- The parts that are updated lie apart, and do not decide where anything is. -/
structure Clear (md : Metadata) (p : Placement) : Prop where
  apart : (md.updated p).Pairwise Span.Apart
  guides : ∀ u ∈ md.updated p, ∀ g ∈ md.image.guides, u.Apart g

/-- No more than the address, the size and the flags are written to the CLI header. -/
theorem span_redirectFields {f : Field} (hField : f ∈ redirectFields md rva size) :
    md.cliOffset + CliHeader.metadataRvaOffset ≤ f.span.start ∧
      f.span.stop ≤ md.cliOffset + CliHeader.flagsOffset + 4 ∧
      f.span.stop ≤ md.cliOffset + CliHeader.byteSize := by
  unfold redirectFields at hField
  simp only [List.mem_append, List.mem_cons, List.not_mem_nil, or_false] at hField
  rcases hField with (rfl | rfl) | hFlags
  · simp [Field.span, CliHeader.metadataRvaOffset, CliHeader.flagsOffset, CliHeader.byteSize]
  · simp [Field.span, CliHeader.metadataRvaOffset, CliHeader.metadataSizeOffset,
      CliHeader.flagsOffset, CliHeader.byteSize]
  · split at hFlags
    · obtain rfl := List.mem_singleton.1 hFlags
      simp [Field.span, CliHeader.metadataRvaOffset, CliHeader.flagsOffset, CliHeader.byteSize]
    · cases hFlags

/-- The fields of the CLI header cannot lie on each other. -/
theorem apart_redirectFields (md : Metadata) (rva size : UInt32) :
    (redirectFields md rva size).Pairwise fun f g => f.span.Apart g.span := by
  unfold redirectFields
  split
  · simp [Span.Apart, Field.span, CliHeader.metadataRvaOffset, CliHeader.metadataSizeOffset,
      CliHeader.flagsOffset]
  · simp [Span.Apart, Field.span, CliHeader.metadataRvaOffset, CliHeader.metadataSizeOffset]

/-- What is known of a file that was written. -/
structure Rewritten (md : Metadata) (p : Placement) (content : Bytes) (rva size : UInt32)
    (out : Bytes) : Prop where
  size_ge : md.image.data.size ≤ out.size
  old : ∀ s : Span, s.stop ≤ md.image.data.size → (∀ u ∈ md.written p, u.Apart s) →
    md.image.data.Agree out s.start s.stop
  new : out.Holds p.offset content.toList
  address : (Section.ofBytesAt out p.headerOffset).address.toNat = p.rva
  rawOffset : (Section.ofBytesAt out p.headerOffset).rawOffset.toNat = p.offset
  virtualSize : (Section.ofBytesAt out p.headerOffset).virtualSize.toNat = content.size
  rawSize : (Section.ofBytesAt out p.headerOffset).rawSize.toNat
    = alignUp content.size md.image.optional.fileAlignment.toNat
  count : out.uintAt (md.image.headers.signatureOffset + Placement.sectionCountOffset) 2
    = md.image.headers.sections.length + 1
  cliSize : out.uintAt md.cliOffset 4 = CliHeader.byteSize
  rva_eq : out.uintAt (md.cliOffset + CliHeader.metadataRvaOffset) 4 = rva.toNat
  size_eq : out.uintAt (md.cliOffset + CliHeader.metadataSizeOffset) 4 = size.toNat

variable (hImage : md.image.ReadFrom md.image.data) (hFound : md.FoundIn md.image)
  (hPlace : p.FoundIn md.image) (hClear : Clear md p)

include hImage hFound hPlace

/-- All fields lie in the old file, so that none of them is cut off or moved. -/
theorem updated_le : ∀ u ∈ md.updated p, u.stop ≤ md.image.data.size := by
  have hRoom := hPlace.header_room
  have hCli := hFound.cli_le
  have hOptional := hImage.optional.size_ge
  have hFields := OptionalHeader.le_fieldSize md.image.optional.plus
  unfold Metadata.updated Placement.spans
  simp only [List.cons_append, List.nil_append, List.forall_mem_cons, Headers.optionalOffset,
    Placement.sectionCountOffset, Placement.dataSizeOffset, Placement.imageSizeOffset] at *
  refine ⟨by omega, by omega, by omega, by omega, by omega, by simp⟩

include hClear

/-- Appending and redirecting together, as one run of overwriting on the extended file. -/
theorem rewritten_of_append (hAppend : p.append md.image content = .ok data)
    (hRedirect : redirectHeader md data rva size = .ok out) :
    Rewritten md p content rva size out := by
  obtain ⟨entry, dataSize, memorySize, hAppended⟩ := Placement.append_eq_ok hAppend
  have hWrites := hAppended.writes.append (redirectHeader_eq_ok hRedirect)
  have hLength := Placement.length_of_entry hAppended.entry_eq
  have hSpans := p.span_fields md.image.headers dataSize memorySize hLength
  have hLe := updated_le hImage hFound hPlace
  obtain ⟨hHeaderSpans, _, hCli⟩ := List.pairwise_append.1 hClear.apart
  rw [← hSpans] at hHeaderSpans hCli
  -- Every field lies in one of the parts that may change.
  have hInside : ∀ f ∈ p.fields md.image.headers entry dataSize memorySize
      ++ redirectFields md rva size, ∃ u ∈ md.written p,
        u.start ≤ f.span.start ∧ f.span.stop ≤ u.stop := by
    intro f hField
    rcases List.mem_append.1 hField with hField | hField
    · exact ⟨f.span, List.mem_append_left _ (hSpans ▸ List.mem_map_of_mem hField),
        Nat.le_refl _, Nat.le_refl _⟩
    · obtain ⟨hStart, hStop, _⟩ := span_redirectFields hField
      exact ⟨_, List.mem_append_right _ (List.mem_singleton_self _), hStart, hStop⟩
  have hHeader : ∀ f ∈ p.fields md.image.headers entry dataSize memorySize,
      f.span.Apart ⟨md.cliOffset, md.cliOffset + CliHeader.byteSize⟩ := fun f hField =>
    hCli f.span (List.mem_map_of_mem hField) _ (List.mem_singleton_self _)
  have hApart : (p.fields md.image.headers entry dataSize memorySize
      ++ redirectFields md rva size).Pairwise fun f g => f.span.Apart g.span := by
    refine List.pairwise_append.2 ⟨List.pairwise_map.1 hHeaderSpans,
      apart_redirectFields md rva size, fun f hf g hg => ?_⟩
    obtain ⟨hStart, _, hStop⟩ := span_redirectFields hg
    exact (hHeader f hf).mono (Nat.le_trans (Nat.le_add_right _ _) hStart) hStop
  have hOld : ∀ s : Span, (∀ u ∈ md.written p, u.Apart s) →
      (p.extended md.image content).Agree out s.start s.stop := by
    refine fun s hUnder => hWrites.agree fun f hField => ?_
    obtain ⟨u, hMem, hStart, hStop⟩ := hInside f hField
    exact ((hUnder u hMem).symm.mono hStart hStop).symm
  obtain ⟨hFront, hContent⟩ := Placement.agree_extended hPlace.size_le content
    (Placement.pos_of_isPowerOfTwo hPlace.fileAlignment)
  have hEntry := hWrites.holds hApart (List.mem_append_left _ (List.mem_cons_self ..))
  have hRead := Placement.ofBytesAt_of_entry hAppended.entry_eq
    (hEntry.drop (by rw [hLength]; decide))
  have hCountHolds := hWrites.holds hApart
    (List.mem_append_left _ (List.mem_cons_of_mem _ (List.mem_cons_self ..)))
  have hRva := hWrites.holds hApart
    (List.mem_append_right _ (List.mem_append_left _ (List.mem_cons_self ..)))
  have hSize := hWrites.holds hApart (List.mem_append_right _
    (List.mem_append_left _ (List.mem_cons_of_mem _ (List.mem_cons_self ..))))
  have hCliSize : (p.extended md.image content).Agree out md.cliOffset (md.cliOffset + 4) := by
    refine hWrites.agree (s := ⟨md.cliOffset, md.cliOffset + 4⟩) fun f hField => ?_
    rcases List.mem_append.1 hField with hField | hField
    · exact (hHeader f hField).mono (Nat.le_refl _) (Nat.add_le_add_left (by decide) _)
    · exact .inr (Nat.le_trans (Nat.add_le_add_left (by decide) _) (span_redirectFields hField).1)
  have hOutSize := hWrites.size_eq
  have hEnd := hContent.1
  have hStart := hPlace.size_le
  have hCliLe : md.cliOffset + 4 ≤ md.image.data.size :=
    Nat.le_trans (Nat.add_le_add_left (by decide) _) hFound.cli_le
  refine ⟨by omega, fun s hStop hUnder =>
    (hFront.mono (Nat.zero_le _) hStop).trans (hOld s hUnder), ?_, hRead.1, hRead.2.1, hRead.2.2.1,
    hRead.2.2.2, hCountHolds.uintAt_of_lt hAppended.count_lt, ?_, hRva.uintAt_of_lt rva.toNat_lt,
    hSize.uintAt_of_lt size.toNat_lt⟩
  · refine hContent.congr (hOld ⟨_, _⟩ (Metadata.apart_written fun u hMem => .inl ?_)) (by omega)
    exact Nat.le_trans (hLe u hMem) hStart
  · rw [← ((hFront.mono (Nat.zero_le _) hCliLe).trans hCliSize).uintAt]
    exact hFound.cli_fields.1

omit hFound hPlace in
/-- What decides where everything is has not changed. -/
theorem Rewritten.guides (h : Rewritten md p content rva size out) :
    (∀ g ∈ md.image.headers.guides, md.image.data.Agree out g.start g.stop) ∧
      ∀ g ∈ md.image.optional.guides md.image.headers.optionalOffset,
        md.image.data.Agree out g.start g.stop := by
  have hHeaders := hImage.headers
  have hOptional := hImage.optional.size_ge
  have hDirectory : OptionalHeader.cliDirectory < md.image.optional.directories.length := by
    obtain ⟨hGet, _⟩ := Option.filter_eq_some_iff.1 hImage.cli_eq
    exact (List.getElem?_eq_some_iff.1 hGet).1
  have hInside : ∀ g ∈ md.image.guides, g.stop ≤ md.image.data.size := by
    have hFirst := hHeaders.signatureOffset_ge
    have hFields := hHeaders.size_ge
    have hTable := hHeaders.table_le
    have hSize := OptionalHeader.le_fieldSize md.image.optional.plus
    unfold Image.guides Headers.guides OptionalHeader.guides
    simp only [List.cons_append, List.nil_append, List.forall_mem_cons, Headers.optionalOffset,
      OptionalHeader.cliDirectory] at *
    refine ⟨by omega, by omega, by omega, by omega, by omega, by omega, by simp⟩
  exact List.forall_mem_append.1 fun g hMem => h.old g (hInside g hMem)
    (Metadata.apart_written fun u hu => hClear.guides u hu g hMem)

omit hFound hPlace in
/-- A directory whose entry was not overwritten is listed as before. -/
theorem Rewritten.directory?_eq (h : Rewritten md p content rva size out) {o : OptionalHeader}
    {position : Nat} (hFrom : o.ReadFrom out md.image.headers.optionalOffset)
    (hEntry : md.image.data.Agree out
      (md.image.headers.optionalOffset + OptionalHeader.fieldSize md.image.optional.plus
        + 8 * position)
      (md.image.headers.optionalOffset + OptionalHeader.fieldSize md.image.optional.plus
        + 8 * position + 8)) :
    o.directory? position = md.image.optional.directory? position :=
  (hImage.optional.directory?_congr hFrom (h.guides hImage hClear).2 position hEntry).2

omit hFound hPlace in
/-- The CLI header is where it was. -/
theorem Rewritten.directory?_cli (h : Rewritten md p content rva size out) {o : OptionalHeader}
    (hFrom : o.ReadFrom out md.image.headers.optionalOffset) :
    o.directory? OptionalHeader.cliDirectory = some md.image.cli := by
  obtain ⟨_, hOptional⟩ := h.guides hImage hClear
  simp only [OptionalHeader.guides, List.forall_mem_cons] at hOptional
  obtain ⟨_, _, hEntry, _⟩ := hOptional
  exact (h.directory?_eq hImage hClear hFrom hEntry).trans hImage.cli_eq

omit hFound in
/-- The image that is read from the written file has one section more. -/
theorem Rewritten.sections {image' : Image} (h : Rewritten md p content rva size out)
    (hRead : image'.ReadFrom out) : image'.cli = md.image.cli ∧ image'.headers.sections
      = md.image.headers.sections ++ [Section.ofBytesAt out p.headerOffset] := by
  obtain ⟨hSignature, hOptionalSize, hSections⟩ := hImage.headers.sections_of_count hRead.headers
    (h.guides hImage hClear).1 h.size_ge h.count
  rw [← hPlace.headerOffset_eq] at hSections
  have hNew := hRead.optional
  rw [show image'.headers.optionalOffset = md.image.headers.optionalOffset by
    rw [Headers.optionalOffset, hSignature, Headers.optionalOffset]] at hNew
  have hDirectory := h.directory?_cli hImage hClear hNew
  rw [hRead.cli_eq] at hDirectory
  exact ⟨Option.some.inj hDirectory, hSections⟩

omit hImage hFound hClear in
/-- Old addresses lead where they led, and new ones to the contents of the new section, which has to
end within 32 bits. -/
theorem Rewritten.offsetOf {image' : Image} {address offset : Nat}
    (h : Rewritten md p content rva size out)
    (hSections : image'.headers.sections
      = md.image.headers.sections ++ [Section.ofBytesAt out p.headerOffset]) :
    (md.image.offsetOf address = .ok offset → image'.offsetOf address = .ok offset) ∧
      (p.rva ≤ address → image'.offsetOf address = .ok offset →
        (Section.ofBytesAt out p.headerOffset).stop < 0x100000000 ∧
          offset = p.offset + (address - p.rva)) := by
  unfold Image.offsetOf
  rw [hSections]
  split
  · simp
  · refine ⟨Image.offsetIn_append, fun hBeyond hNew => ?_⟩
    obtain ⟨hFits, _, _, hOffset⟩ := Image.offsetIn_of_beyond
      (fun s hMem => Nat.le_trans (hPlace.stop_le hMem) hBeyond) hNew
    rw [hOffset, h.address, h.rawOffset, Nat.add_comm]
    exact ⟨hFits, rfl⟩

omit hImage hFound hClear in
/-- All addresses of the contents lead to them, if the new section ends within 32 bits. -/
theorem Rewritten.offsetOf_content {image' : Image} {k : Nat}
    (h : Rewritten md p content rva size out)
    (hSections : image'.headers.sections
      = md.image.headers.sections ++ [Section.ofBytesAt out p.headerOffset])
    (hFits : (Section.ofBytesAt out p.headerOffset).stop < 0x100000000)
    (hk : k < content.size) : image'.offsetOf (p.rva + k) = .ok (p.offset + k) := by
  have hStop : p.rva + k < (Section.ofBytesAt out p.headerOffset).stop := by
    rw [Section.stop, Section.extent, h.address, h.virtualSize]
    omega
  rw [Image.offsetOf, if_neg (by omega), hSections, Image.offsetIn_new
    (fun s hMem => Nat.le_trans (hPlace.stop_le hMem) (Nat.le_add_right _ _)) hFits
    (h.address ▸ Nat.le_add_right _ _) hStop, h.address, h.rawOffset, Nat.add_sub_cancel_left,
    Nat.add_comm]

/-- The metadata of the written file is in the new section. -/
theorem Rewritten.block {md' : Metadata} {front block : Bytes}
    (h : Rewritten md p (front ++ block) rva size out) (hRead : md'.image.ReadFrom out)
    (hFound' : md'.FoundIn md'.image) (hRva : rva.toNat = p.rva + front.size)
    (hSize : size.toNat = block.size) : md'.block = block := by
  obtain ⟨hCli, hSections⟩ := h.sections hImage hPlace hClear hRead
  have hCliOffset : md'.cliOffset = md.cliOffset := by
    have hSame := (h.offsetOf hPlace hSections).1 hFound.cliOffset
    rw [← hCli, hFound'.cliOffset] at hSame
    exact Except.ok.inj hSame
  obtain ⟨_, hRva', hSize', _⟩ := hFound'.cli_fields
  rw [hRead.data_eq, hCliOffset, h.rva_eq] at hRva'
  rw [hRead.data_eq, hCliOffset, h.size_eq] at hSize'
  obtain ⟨_, hOffset⟩ := (h.offsetOf hPlace hSections).2 (by omega) hFound'.offset
  have hHolds := h.new
  rw [Array.toList_append] at hHolds
  obtain ⟨_, hBlock⟩ := holds_append.1 hHolds
  have hExtract := hBlock.extract
  rw [Array.length_toList, Array.length_toList, Array.toArray_toList] at hExtract
  rw [Metadata.block, hRead.data_eq, hSize', hSize, hOffset, hRva', hRva, Nat.add_sub_cancel_left,
    hExtract]

end Module

end IlSplice
