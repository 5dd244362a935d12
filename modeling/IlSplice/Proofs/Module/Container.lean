import IlSplice.Proofs.Module.NewBody

/-! Whether a written file is accepted as a container. Its headers are always complete. What is left
to be tested is the header of build tools and what the directories lead to. In a file that is laid
out as usual this comes down to the version text of the metadata. -/

namespace IlSplice

open Bytes

namespace Section

/-- All contents are taken from a section that is as large in memory as they are, and in the file as
large as they are with their filling. -/
theorem le_readSize {s : Section} {alignment size : Nat} (hAlignment : 0 < alignment)
    (hVirtual : s.virtualSize.toNat = size)
    (hRaw : s.rawSize.toNat = alignUp size alignment) : size ≤ s.readSize alignment := by
  rcases Nat.eq_zero_or_pos size with rfl | hSome
  · exact Nat.zero_le _
  have hLe := le_alignUp size hAlignment
  have hStop := le_alignUp (s.rawOffset.toNat + s.rawSize.toNat) hAlignment
  have hStart : s.rawOffset.toNat / 0x200 * 0x200 ≤ s.rawOffset.toNat := Nat.div_mul_le_self _ _
  have hPage := le_alignUp s.rawSize.toNat (show 0 < 0x1000 by decide)
  have hPageVirtual := le_alignUp s.virtualSize.toNat (show 0 < 0x1000 by decide)
  have hRawSome : s.rawSize ≠ 0 := by
    rintro hZero
    rw [hZero] at hRaw
    have hNone : alignUp size alignment = 0 := hRaw.symm
    omega
  have hVirtualSome : s.virtualSize ≠ 0 := by
    rintro hZero
    rw [hZero] at hVirtual
    have hNone : size = 0 := hVirtual.symm
    omega
  unfold readSize
  dsimp only
  rw [if_neg hRawSome, if_neg hVirtualSome]
  omega

end Section

namespace Content

variable {c : Content} {cli : Directory} {header root : Nat}

/-- An address is found in the first section that has it. -/
theorem locate?_eq_some {rva offset : Nat} : c.locate? rva = some offset ↔
    isPowerOfTwo c.optional.fileAlignment.toNat = true ∧ ∃ s,
      (c.sections.find? fun s => decide (s.address.toNat ≤ rva ∧
        rva < s.address.toNat + s.readSize c.optional.fileAlignment.toNat)) = some s ∧
      s.rawOffset.toNat + (rva - s.address.toNat) = offset := by
  unfold locate?
  simp only [Option.bind_eq_bind, Option.bind_eq_some_iff, Option.guard_eq_some', exists_const]
  constructor
  · rintro ⟨hAlignment, s, hFind, hOffset⟩
    exact ⟨hAlignment, s, hFind, Option.some.inj hOffset⟩
  · rintro ⟨hAlignment, s, hFind, hOffset⟩
    exact ⟨hAlignment, s, hFind, congrArg some hOffset⟩

/-- Whether the version text is UTF-8 decides, where everything else that the CLI directory leads to
is in the file. -/
theorem isSome_leadsToMetadata_iff (hHeader : c.locate? cli.rva.toNat = some header)
    (hHeaderFits : header + 72 ≤ c.data.size)
    (hRoot : c.locate? (c.data.uintAt (header + 8) 4) = some root)
    (hFits : root + c.data.uintAt (header + 12) 4 ≤ c.data.size)
    (hTextFits : root + 16 + c.data.uintAt (root + 12) 4 + 4 ≤ c.data.size) :
    (c.leadsToMetadata cli).isSome ↔ (Bytes.utf8? (c.data.extract (root + 16)
      (root + 16 + c.data.uintAt (root + 12) 4))).isSome := by
  have hLength : c.number? (root + 12) 4 = some (c.data.uintAt (root + 12) 4) :=
    if_pos (by omega)
  rw [Option.isSome_iff_exists]
  unfold leadsToMetadata
  simp only [Option.bind_eq_bind, Option.bind_eq_some_iff, Option.guard_eq_some', exists_const,
    hHeader, hRoot, hLength, Option.some.injEq, exists_eq_left']
  simp [hHeaderFits, hFits, hTextFits, show root + 4 ≤ c.data.size by omega]

/-- Without thread storage only the CLI directory counts. -/
theorem isSound_of_noStorage
    (hStorage : c.optional.directory? OptionalHeader.threadDirectory = none)
    (hCli : c.optional.directory? OptionalHeader.cliDirectory = some cli) :
    c.isSound = true ↔ (c.leadsToMetadata cli).isSome := by
  simp [isSound, hStorage, hCli]

end Content

namespace Module

/-- What decides whether a written file is accepted: a header of build tools has to be complete, and
the directories have to make sense with the new section. -/
def Acceptable (md : Metadata) (p : Placement) (out : Bytes) : Prop :=
  Headers.isSoundlyMarked out 0x40 md.image.headers.signatureOffset = true ∧
    ∃ o, OptionalHeader.of? out md.image.headers.optionalOffset = some o ∧
      Content.isSound ⟨out, md.image.headers.sections ++ [Section.ofBytesAt out p.headerOffset], o⟩
        = true

variable {md : Metadata} {p : Placement} {out : Bytes} {rva size : UInt32}

section

variable {content : Bytes} (hImage : md.image.ReadFrom md.image.data)
  (hPlace : p.FoundIn md.image) (hClear : Clear md p) (h : Rewritten md p content rva size out)

include hImage hClear h

/-- An optional header is found in the written file. -/
theorem Rewritten.exists_optional :
    ∃ o, OptionalHeader.of? out md.image.headers.optionalOffset = some o :=
  hImage.optional.exists_of? (h.guides hImage hClear).2 h.size_ge

include hPlace

/-- Both signatures are kept, and so are the base of the image and the alignments. The entry of the
new section cannot lie on these, since an alignment is not zero. The CLI header is too large for the
gaps between the other fields. -/
theorem Rewritten.agree_headers : md.image.data.Agree out 0 2 ∧
    md.image.data.Agree out md.image.headers.signatureOffset
      (md.image.headers.signatureOffset + 4) ∧
    md.image.data.Agree out (md.image.headers.optionalOffset + 24)
      (md.image.headers.optionalOffset + 40) := by
  have hEntry := hPlace.headerOffset_eq
  have hAlignment : md.image.data.uintAt (md.image.headers.optionalOffset + 36) 4 ≠ 0 :=
    hImage.optional.fileAlignment_eq ▸
      Nat.ne_of_gt (Placement.pos_of_isPowerOfTwo hPlace.fileAlignment)
  have hSlot := hPlace.outside_slot hAlignment
  have hOptional := hImage.optional.size_ge
  have hFields := OptionalHeader.le_fieldSize md.image.optional.plus
  obtain ⟨hSpans, _, hCli⟩ := List.pairwise_append.1 hClear.apart
  simp only [Placement.spans, List.pairwise_cons, List.forall_mem_cons, Span.Apart,
    List.not_mem_nil, false_imp_iff, implies_true, and_true] at hSpans hCli
  have hKept : ∀ s : Span, s.stop ≤ md.image.data.size → (∀ u ∈ md.written p, u.Apart s) →
      md.image.data.Agree out s.start s.stop := h.old
  simp only [Metadata.written, Placement.spans, List.cons_append, List.nil_append,
    List.forall_mem_cons, Span.Apart, List.not_mem_nil, false_imp_iff, implies_true, and_true,
    Headers.sectionTableOffset, Headers.optionalOffset, Placement.sectionCountOffset,
    Placement.dataSizeOffset, Placement.imageSizeOffset, CliHeader.metadataRvaOffset,
    CliHeader.flagsOffset, CliHeader.byteSize, Section.entrySize] at *
  have hStart := hImage.headers.signatureOffset_ge
  refine ⟨hKept ⟨0, 2⟩ ?_ ?_, hKept ⟨md.image.headers.signatureOffset, _⟩ ?_ ?_,
    hKept ⟨md.image.headers.signatureOffset + 24 + 24, _⟩ ?_ ?_⟩
  all_goals dsimp only
  all_goals omega

/-- The alignment is kept, as are all fields from the base of the image up to it. -/
theorem Rewritten.fileAlignment_eq {o : OptionalHeader}
    (hFrom : o.ReadFrom out md.image.headers.optionalOffset) :
    o.fileAlignment = md.image.optional.fileAlignment := by
  obtain ⟨_, _, hKept⟩ := h.agree_headers hImage hPlace hClear
  refine UInt32.toNat_inj.1 ?_
  rw [hFrom.fileAlignment_eq, hImage.optional.fileAlignment_eq]
  exact (Agree.uintAt (hKept.mono (by omega) (by omega))).symm

/-- The headers of the written file are those from before, with one section more. -/
theorem Rewritten.readFrom_headers {o : OptionalHeader}
    (hMarked : Headers.isSoundlyMarked out 0x40 md.image.headers.signatureOffset = true)
    (hFrom : o.ReadFrom out md.image.headers.optionalOffset) :
    Headers.ReadFrom out ⟨md.image.headers.signatureOffset, md.image.headers.optionalSize, some o,
      md.image.headers.sections ++ [Section.ofBytesAt out p.headerOffset]⟩ := by
  have hOld := hImage.headers
  obtain ⟨hMagic, hSignature, _⟩ := h.agree_headers hImage hPlace hClear
  obtain ⟨hHeaders, _⟩ := h.guides hImage hClear
  simp only [Headers.guides, List.forall_mem_cons] at hHeaders
  obtain ⟨hPointer, hOptionalSize, hTable, _⟩ := hHeaders
  have hSections := hOld.sections_succ hTable h.size_ge
  have hSome := hOld.isNone_optional
  rw [hImage.optional_eq] at hSome
  have hRoom := hPlace.header_room
  rw [hPlace.headerOffset_eq] at hRoom ⊢
  exact {
    magic := hMagic.symm.uintAt.trans hOld.magic
    signatureOffset_eq := hOld.signatureOffset_eq.trans hPointer.uintAt
    signatureOffset_ge := hOld.signatureOffset_ge
    size_ge := Nat.le_trans hOld.size_ge h.size_ge
    signature := hSignature.symm.uintAt.trans hOld.signature
    marked := hMarked
    optionalSize_eq := hOld.optionalSize_eq.trans hOptionalSize.uintAt
    isNone_optional := by simpa using hSome
    optional := by
      rintro o' hSame
      obtain rfl := Option.some.inj hSame
      exact hFrom
    length_eq := by simpa using h.count.symm
    sections_eq := by
      rw [← hSections]
      simp [Headers.sectionTableOffset, Headers.optionalOffset]
    table_le := by
      rw [Headers.sectionTableOffset, Headers.optionalOffset, List.length_append,
        List.length_singleton, Nat.add_mul, Nat.one_mul, ← Nat.add_assoc]
      exact Nat.le_trans hRoom h.size_ge }

/-- The headers of a written file are complete, whatever its new metadata is like. -/
theorem Rewritten.exists_image_iff :
    (∃ image, Image.ofBytes out = .ok image) ↔ Acceptable md p out := by
  constructor
  · rintro ⟨image, hRead⟩
    have hNew := Image.ofBytes_eq_ok.1 hRead
    obtain ⟨hSignature, hSize, hSections⟩ := hImage.headers.sections_of_count hNew.headers
      (h.guides hImage hClear).1 h.size_ge h.count
    have hFrom := hNew.optional
    rw [Headers.optionalOffset, hSignature] at hFrom
    refine ⟨hSignature ▸ hNew.headers.marked, _, OptionalHeader.of?_eq_some.2 hFrom, ?_⟩
    rw [hPlace.headerOffset_eq, ← hSections]
    exact hNew.sound
  · rintro ⟨hMarked, o, hRead, hSound⟩
    have hFrom := OptionalHeader.of?_eq_some.1 hRead
    exact ⟨⟨out, ⟨md.image.headers.signatureOffset, md.image.headers.optionalSize, some o,
      md.image.headers.sections ++ [Section.ofBytesAt out p.headerOffset]⟩, o, md.image.cli⟩,
      Image.ofBytes_eq_ok.2 {
        data_eq := rfl
        headers := h.readFrom_headers hImage hPlace hClear hMarked hFrom
        optional_eq := rfl
        sound := hSound
        cli_eq := h.directory?_cli hImage hClear hFrom }⟩

end

/-- A file that is laid out as usual. What changes lies apart from the header of build tools and
from the directory for thread storage, and there is no such storage. The CLI header is found in the
section that loading finds it in. The bytes that are taken from a section end in front of the new
section, or lie as far from their addresses as those of the new section do. -/
structure Ordinary (md : Metadata) (p : Placement) : Prop where
  tools : ∀ u ∈ md.written p, u.Apart ⟨0x40, md.image.headers.signatureOffset⟩
  apart : ∀ u ∈ md.written p, u.Apart (.ofWidth (md.image.headers.optionalOffset
    + OptionalHeader.fieldSize md.image.optional.plus + 8 * OptionalHeader.threadDirectory) 8)
  storage : md.image.optional.directory? OptionalHeader.threadDirectory = none
  header : Content.locate? ⟨md.image.data, md.image.headers.sections, md.image.optional⟩
    md.image.cli.rva.toNat = some md.cliOffset
  beyond : ∀ s ∈ md.image.headers.sections,
    s.address.toNat + s.readSize md.image.optional.fileAlignment.toNat ≤ p.rva ∨
      s.rawOffset.toNat + p.rva = p.offset + s.address.toNat

instance (md : Metadata) (p : Placement) : Decidable (Ordinary md p) :=
  decidable_of_iff (_ ∧ _ ∧ _ ∧ _ ∧ _)
    ⟨fun ⟨hTools, hApart, hStorage, hHeader, hBeyond⟩ =>
      ⟨hTools, hApart, hStorage, hHeader, hBeyond⟩,
      fun h => ⟨h.tools, h.apart, h.storage, h.header, h.beyond⟩⟩

/-- The reader of containers still finds the CLI header, since new sections come last. -/
theorem Ordinary.locate?_header (hOrdinary : Ordinary md p) (out : Bytes) {o : OptionalHeader}
    (hAlignment : o.fileAlignment = md.image.optional.fileAlignment) :
    Content.locate? ⟨out,
      md.image.headers.sections ++ [Section.ofBytesAt out p.headerOffset], o⟩
        md.image.cli.rva.toNat = some md.cliOffset := by
  obtain ⟨hPower, s, hFind, hOffset⟩ := Content.locate?_eq_some.1 hOrdinary.header
  refine Content.locate?_eq_some.2 ⟨hAlignment ▸ hPower, s, ?_, hOffset⟩
  rw [hAlignment, List.find?_append, hFind, Option.some_or]

namespace WrittenWith

variable {s : Streams} {r : Redirect} {pool pool' : LiteralPool} {code block : Bytes} {m : Module}
  {o : OptionalHeader} (h : m.WrittenWith md p s r pool pool' code block rva size out)

include h

/-- The address in the CLI header leads to the new metadata, also for the reader of containers. -/
theorem locate?_block (hOrdinary : Ordinary md p)
    (hAlignment : o.fileAlignment = md.image.optional.fileAlignment) :
    Content.locate? ⟨out, md.image.headers.sections ++ [Section.ofBytesAt out p.headerOffset], o⟩
      rva.toNat = some (p.offset + (code.padTo 4).size) := by
  have hRva := h.rva_eq
  have hMinimum := h.block_size
  have hTaken := Section.le_readSize
    (Placement.pos_of_isPowerOfTwo h.placed.fileAlignment) h.rewritten.virtualSize
    h.rewritten.rawSize
  rw [Array.size_append] at hTaken
  rw [Content.locate?_eq_some, List.find?_append]
  dsimp only
  rw [hAlignment]
  refine ⟨h.placed.fileAlignment, ?_⟩
  cases hFind : md.image.headers.sections.find? fun s => decide (s.address.toNat ≤ rva.toNat ∧
      rva.toNat < s.address.toNat + s.readSize md.image.optional.fileAlignment.toNat) with
  | some s =>
      have hInside := List.find?_some hFind
      rw [decide_eq_true_eq] at hInside
      refine ⟨s, rfl, ?_⟩
      rcases hOrdinary.beyond s (List.mem_of_find?_eq_some hFind) with hEnd | hSame
      all_goals omega
  | none =>
      have hHas : decide ((Section.ofBytesAt out p.headerOffset).address.toNat ≤ rva.toNat ∧
          rva.toNat < (Section.ofBytesAt out p.headerOffset).address.toNat
            + (Section.ofBytesAt out p.headerOffset).readSize
              md.image.optional.fileAlignment.toNat) = true := by
        rw [decide_eq_true_eq, h.rewritten.address]
        omega
      refine ⟨_, by rw [Option.none_or, List.find?_singleton, if_pos hHas], ?_⟩
      rw [h.rewritten.rawOffset, h.rewritten.address]
      omega

/-- The version text is where the reader of containers looks for it, in the form in which it was
written. -/
theorem version_text : ∃ length, out.uintAt (p.offset + (code.padTo 4).size + 12) 4 = length ∧
    p.offset + (code.padTo 4).size + 16 + length + 4 ≤ out.size ∧
    out.extract (p.offset + (code.padTo 4).size + 16)
      (p.offset + (code.padTo 4).size + 16 + length)
        = resize (ofUtf8 md.root.version) md.root.versionSize := by
  have hNames := h.found.names_known
  obtain ⟨_, _, _, root, _, _, _, hRoot, hFields, _⟩ := Metadata.fields_of_rebuild hNames
    h.found.versionSize_lt (Root.signature_of_ofBytes h.found.root) h.rebuild
    (h.size_eq ▸ size.toNat_lt)
  have hText : root.version = md.root.version := by
    rw [← hRoot]
    unfold Metadata.withLiterals
    split <;> rfl
  have hSize : root.versionSize = md.root.versionSize := by
    rw [← hRoot]
    exact (Metadata.names_withLiterals hNames pool').2
  have hExtract := h.block_held.extract
  have hInside := h.block_held.1
  rw [Array.length_toList, Array.toArray_toList] at hExtract
  rw [Array.length_toList] at hInside
  have hMinimum := h.block_size
  have hRoom := hFields.count_le
  have hHeld := (h.block_held.trans hFields.version).extract
  rw [Array.length_toList, size_resize, Array.toArray_toList, hText, hSize] at hHeld
  rw [hSize] at hRoom
  refine ⟨md.root.versionSize, ?_, by omega, hHeld⟩
  rw [← uintAt_extract (show p.offset + (code.padTo 4).size + 12 + 4
    ≤ p.offset + (code.padTo 4).size + block.size by omega), hExtract, hFields.length_eq, hSize]

/-- The header of build tools, if there is one, is kept. -/
theorem isSoundlyMarked (hOrdinary : Ordinary md p) :
    Headers.isSoundlyMarked out 0x40 md.image.headers.signatureOffset = true := by
  have hHeaders := h.readFrom.headers
  have hOptional := hHeaders.size_ge
  rw [Headers.optionalOffset] at hOptional
  have hInside : md.image.headers.signatureOffset ≤ md.image.data.size := by omega
  rw [Headers.isSoundlyMarked_congr (h.rewritten.old _ hInside hOrdinary.tools) hInside
    (Nat.le_trans hInside h.rewritten.size_ge)]
  exact hHeaders.marked

/-- There is still no thread storage. -/
theorem directory?_thread (hOrdinary : Ordinary md p)
    (hFrom : o.ReadFrom out md.image.headers.optionalOffset) :
    o.directory? OptionalHeader.threadDirectory = none := by
  -- The entry is in the file, since that of the CLI header is listed and stands behind it.
  have hListed : OptionalHeader.cliDirectory < md.image.optional.directories.length := by
    obtain ⟨hGet, _⟩ := Option.filter_eq_some_iff.1 h.readFrom.cli_eq
    exact (List.getElem?_eq_some_iff.1 hGet).1
  have hList := h.readFrom.optional.size_ge
  rw [h.rewritten.directory?_eq h.readFrom h.clear hFrom
    (h.rewritten.old (.ofWidth _ 8) ?_ hOrdinary.apart)]
  · exact hOrdinary.storage
  · simp only [Span.ofWidth, OptionalHeader.threadDirectory, OptionalHeader.cliDirectory] at *
    omega

/-- A file that is laid out as usual is accepted exactly if the version text is still UTF-8. It was
read byte by byte, is written as UTF-8, and is cut off where its field ends. -/
theorem acceptable_iff (hOrdinary : Ordinary md p) : Acceptable md p out ↔
    (Bytes.utf8? (resize (ofUtf8 md.root.version) md.root.versionSize)).isSome := by
  have hNew := h.rewritten
  obtain ⟨o, hRead⟩ := hNew.exists_optional h.readFrom h.clear
  have hFrom := OptionalHeader.of?_eq_some.1 hRead
  have hAlignment := hNew.fileAlignment_eq h.readFrom h.placed h.clear hFrom
  obtain ⟨length, hLength, hFits, hText⟩ := h.version_text
  have hBlock := h.block_held.1
  rw [Array.length_toList] at hBlock
  have hRoot := h.locate?_block hOrdinary hAlignment
  rw [← hNew.rva_eq] at hRoot
  have hLeads := Content.isSome_leadsToMetadata_iff
    (hOrdinary.locate?_header out hAlignment)
    (Nat.le_trans h.found.cli_le hNew.size_ge) hRoot
    (by rw [show out.uintAt (md.cliOffset + 12) 4 = _ from hNew.size_eq, h.size_eq]; exact hBlock)
    (by rw [hLength]; exact hFits)
  dsimp only at hLeads
  rw [hLength, hText, ← Content.isSound_of_noStorage (h.directory?_thread hOrdinary hFrom)
    (hNew.directory?_cli h.readFrom h.clear hFrom)] at hLeads
  rw [← hLeads]
  constructor
  · rintro ⟨_, o', hRead', hSound⟩
    obtain rfl := Option.some.inj (hRead.symm.trans hRead')
    exact hSound
  · exact fun hSound => ⟨h.isSoundlyMarked hOrdinary, o, hRead, hSound⟩

end WrittenWith

end Module

end IlSplice
