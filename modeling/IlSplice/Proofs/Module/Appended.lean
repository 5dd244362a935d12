import IlSplice.Proofs.Module.Bodies
import IlSplice.Proofs.Module.Frame

/-! The section that is added to a file: where it is, in the file and in memory, and what its
contents are. -/

namespace IlSplice

open Bytes

/-- The image with one section more. -/
def Image.withSection (image : Image) (s : Section) : Image :=
  { image with headers := { image.headers with sections := image.headers.sections ++ [s] } }

namespace Image

variable {image : Image} {s : Section} {rva offset : Nat}

/-- A section at the end of the table is asked last, and so no address that was found before leads
elsewhere. -/
theorem offsetOf_withSection (hOld : image.offsetOf rva = .ok offset) :
    (image.withSection s).offsetOf rva = .ok offset := by
  unfold offsetOf at hOld ⊢
  split at hOld
  · cases hOld
  · rename_i hFits
    rw [if_neg hFits]
    exact offsetIn_append hOld

/-- An address in the new section is found in none of those before it, because all of them end in
front of it. -/
theorem offsetOf_withSection_new (hBeyond : ∀ t ∈ image.headers.sections, t.stop ≤ s.address.toNat)
    (hFits : s.stop < 0x100000000) {k : Nat} (hk : s.address.toNat + k < s.stop) :
    (image.withSection s).offsetOf (s.address.toNat + k) = .ok (s.rawOffset.toNat + k) := by
  have hBehind : ∀ t ∈ image.headers.sections, t.stop ≤ s.address.toNat + k := fun t hMem =>
    Nat.le_trans (hBeyond t hMem) (Nat.le_add_right _ _)
  rw [offsetOf, if_neg (by omega), withSection,
    offsetIn_new hBehind hFits (Nat.le_add_right _ _) hk, Nat.add_sub_cancel_left, Nat.add_comm]

end Image

/-- The section is in the file behind all bytes that were there, and in memory behind all other
sections. All addresses lead where they should. -/
structure WellPlaced (image : Image) (cli : Nat) (new : Section) (out : Bytes) : Prop where
  address_dvd : image.optional.sectionAlignment.toNat ∣ new.address.toNat
  stop_le : ∀ s ∈ image.headers.sections, s.stop ≤ new.address.toNat
  size_le : image.data.size ≤ new.rawOffset.toNat
  rawOffset_dvd : image.optional.fileAlignment.toNat ∣ new.rawOffset.toNat
  rawSize_dvd : image.optional.fileAlignment.toNat ∣ new.rawSize.toNat
  size_eq : new.rawOffset.toNat + new.rawSize.toNat = out.size
  virtualSize_le : new.virtualSize.toNat ≤ new.rawSize.toNat
  entry_le : (Places.of image.data cli).entry.stop ≤ image.optional.sizeOfHeaders.toNat
  entry_le_rawOffset : ∀ s ∈ image.headers.sections, s.rawSize ≠ 0 →
    (Places.of image.data cli).entry.stop ≤ s.rawOffset.toNat
  /-- The size of the image is written before the CLI header is. -/
  imageSize : (∀ u ∈ (Places.of image.data cli).redirected image.data,
      u.Apart (Places.of image.data cli).imageSize) →
    image.optional.sectionAlignment.toNat ∣ (Places.of image.data cli).imageSize.number out ∧
      new.address.toNat + new.virtualSize.toNat ≤ (Places.of image.data cli).imageSize.number out
  offsetOf_old : ∀ rva offset, image.offsetOf rva = .ok offset →
    (image.withSection new).offsetOf rva = .ok offset
  offsetOf_new : new.address.toNat + new.rawSize.toNat < 2 ^ 32 → ∀ k, k < new.rawSize.toNat →
    (image.withSection new).offsetOf (new.address.toNat + k) = .ok (new.rawOffset.toNat + k)

namespace Module

/-- The contents of the new section: bodies of methods and, behind them, the metadata that leads to
these bodies. -/
structure Fills (md : Metadata) (methods : List MethodDef) (new : Section) (out : Bytes)
    (blocks : List Block) (metadata : Bytes) (start : Nat) : Prop where
  methods_eq : blocks.map (·.method) = methods.filter (·.body.isSome)
  rebuilt : ∃ pool pool', literalPool md = .ok pool ∧ Encodes pool blocks pool' ∧
    md.rebuild pool' (blocks.map (Block.redirect new.address.toNat)) = .ok metadata
  bodies_held : ∀ b ∈ blocks, out.Holds (new.rawOffset.toNat + b.start) b.code.toList
  metadata_held : out.Holds (new.rawOffset.toNat + start) metadata.toList
  apart : (blocks.map Block.span ++ [Span.ofWidth start metadata.size]).Pairwise Span.Apart
  body_le : ∀ b ∈ blocks, b.span.stop ≤ new.virtualSize.toNat
  metadata_stop : start + metadata.size = new.virtualSize.toNat
  redirect_eq : ∀ b ∈ blocks,
    (b.redirect new.address.toNat).rva.toNat = new.address.toNat + b.start
  rva_eq : md.places.metadataRva.number out = new.address.toNat + start
  size_eq : md.places.metadataSize.number out = metadata.size
  /-- The rows of the methods in the tables, which are where the directory lists them. -/
  rows : ∃ source s first, md.stream TableStream.streamName = .ok source ∧
    TableStream.ofBytes source = .ok s ∧
    (∀ root, Root.ofBytes metadata = .ok root → ∃ entry,
      root.stream? TableStream.streamName = some entry ∧ entry.offset.toNat = first) ∧
    ∀ before b after, blocks = before ++ b :: after →
      (∀ b' ∈ after, b'.method.token.row ≠ b.method.token.row) →
        ∃ row, s.rowOffset .methodDef b.method.token.row = .ok row ∧
          out.uintAt (new.rawOffset.toNat + start + first + row
            + s.widths.columnOffset .methodDef MethodDefRow.rvaColumn) 4
              = new.address.toNat + b.start

section Written

variable {md : Metadata} {p : Placement} {content data out : Bytes} {rva size : UInt32}
  {entry : List UInt8} {dataSize memorySize : Nat} (hImage : md.image.ReadFrom md.image.data)
  (hFound : md.FoundIn md.image) (hPlace : p.FoundIn md.image)

include hFound hPlace

/-- None of the fields of the CLI header that change is where the sizes and addresses of the new
entry go, since there is nothing but zeros. -/
theorem redirected_apart : ∀ u ∈ md.places.redirected md.image.data, u.Apart
    ⟨p.headerOffset + Placement.sectionName.length, p.headerOffset + Section.entrySize⟩ := by
  obtain ⟨hSame, hRva, hSize, _⟩ := hFound.cli_fields
  have hZero : ∀ w : UInt32, w ≠ 0 → w.toNat ≠ 0 := fun w hw h => hw (UInt32.toNat_inj.1 h)
  have hFirst := hPlace.outside_slot (hSame ▸ (by decide : CliHeader.byteSize ≠ 0))
  have hSecond := hPlace.outside_slot (hRva ▸ hZero _ hFound.cli.rva_ne)
  have hThird := hPlace.outside_slot (hSize ▸ hZero _ hFound.cli.size_ne)
  simp only [Section.entrySize, CliHeader.metadataRvaOffset, CliHeader.metadataSizeOffset]
    at hFirst hSecond hThird
  -- A field that starts in front of the entry reaches its name at most.
  have hField : ∀ d, p.headerOffset + 40 ≤ md.cliOffset + d ∨ md.cliOffset + d < p.headerOffset →
      (Span.ofWidth (md.cliOffset + d) 4).Apart
        ⟨p.headerOffset + Placement.sectionName.length, p.headerOffset + Section.entrySize⟩ := by
    intro d hOutside
    simp only [Span.Apart, Span.ofWidth, Section.entrySize, Placement.sectionName,
      List.length_cons, List.length_nil]
    omega
  intro u hMem
  simp only [Places.redirected, List.mem_append, List.mem_cons, List.not_mem_nil, or_false] at hMem
  rcases hMem with (rfl | rfl) | hMem
  · exact hField 8 (by omega)
  · exact hField 12 (by omega)
  · split at hMem
    · rename_i hSigned
      obtain rfl := List.mem_singleton.1 hMem
      have hNumber : md.image.data.uintAt (md.cliOffset + 16) 4 ≠ 0 := by
        intro hNone
        rw [Metadata.places, Places.of, Span.number_ofWidth, hNone, Nat.zero_testBit] at hSigned
        cases hSigned
      have hFourth := hPlace.outside_slot hNumber
      rw [Section.entrySize] at hFourth
      exact hField 16 (by omega)
    · cases hMem

include hImage

theorem touched_le : ∀ u ∈ md.places.touched md.image.data, u.stop ≤ md.image.data.size := by
  intro u hMem
  rcases List.mem_append.1 hMem with hMem | hMem
  · rw [headers_places hImage hPlace] at hMem
    exact updated_le hImage hFound hPlace u (List.mem_append_left _ hMem)
  · rw [← redirected_places hFound 0 0] at hMem
    obtain ⟨f, hField, rfl⟩ := List.mem_map.1 hMem
    exact Nat.le_trans (span_redirectFields hField).2.2 hFound.cli_le

variable (hAppended : p.AppendedTo md.image content entry dataSize memorySize data)
  (hRedirect : Overwrites data (redirectFields md rva size) out)

include hAppended hRedirect

/-- The new entry is read as it was written. -/
theorem entry_written : (Section.ofBytesAt out p.headerOffset).address.toNat = p.rva ∧
    (Section.ofBytesAt out p.headerOffset).rawOffset.toNat = p.offset ∧
    (Section.ofBytesAt out p.headerOffset).virtualSize.toNat = content.size ∧
    (Section.ofBytesAt out p.headerOffset).rawSize.toNat
      = alignUp content.size md.image.optional.fileAlignment.toNat := by
  have hLength := Placement.length_of_entry hAppended.entry_eq
  have hApart := Placement.apart_spans hImage hPlace hFound.sections_pos
  rw [← p.span_fields md.image.headers dataSize memorySize hLength, List.pairwise_map] at hApart
  obtain ⟨hEntry, _⟩ := List.pairwise_cons.1 hApart
  have hName : Placement.sectionName.length ≤ entry.length := by
    rw [hLength]
    decide
  refine Placement.ofBytesAt_of_entry hAppended.entry_eq
    ((hAppended.writes.append hRedirect).holds_drop (f := ⟨p.headerOffset, entry⟩) hName ?_)
  intro g hMem
  rcases List.mem_append.1 hMem with hMem | hMem
  · exact (hEntry g hMem).symm.mono (Nat.le_add_right _ _) (Nat.le_refl _)
  · rw [hLength]
    refine redirected_apart hFound hPlace g.span ?_
    rw [← redirected_places hFound rva size]
    exact List.mem_map_of_mem hMem

/-- The contents are where the entry says. -/
theorem content_written : out.Holds p.offset content.toList := by
  have hWrites := hAppended.writes.append hRedirect
  have hSize := hPlace.size_le
  obtain ⟨_, hContent⟩ := Placement.agree_extended hSize content
    (Placement.pos_of_isPowerOfTwo hPlace.fileAlignment)
  refine hContent.congr (hWrites.agree (s := ⟨p.offset, _⟩) fun f hField => .inl ?_) ?_
  · have hMem := span_mem_touched hImage hFound hPlace hAppended hField
    exact Nat.le_trans (touched_le hImage hFound hPlace _ hMem) hSize
  · rw [hWrites.size_eq]
    exact hContent.1

omit hPlace in
/-- The size of the image is what was worked out, unless a field of the CLI header lies over it. -/
theorem imageSize_written (hApart : ∀ u ∈ md.places.redirected md.image.data,
    u.Apart md.places.imageSize) : md.places.imageSize.number out = memorySize := by
  have hHolds := Overwrites.holds_of_later
    (f := ⟨md.image.headers.optionalOffset + Placement.imageSizeOffset, leBytes 4 memorySize⟩)
    (show Overwrites _ ([_, _, _] ++ _ :: []) data from hAppended.writes) (by simp)
  have hKept := hRedirect.agree (s := md.places.imageSize) fun f hField => hApart f.span
    (redirected_places hFound rva size ▸ List.mem_map_of_mem hField)
  have hOld : data.uintAt (md.image.headers.optionalOffset + Placement.imageSizeOffset) 4
      = memorySize := hHolds.uintAt_of_lt hAppended.memorySize_lt
  rw [Headers.optionalOffset, hImage.headers.signatureOffset_eq] at hOld
  rw [Metadata.places, Places.of, Span.number_ofWidth, ← hOld]
  exact hKept.symm.uintAt

omit hAppended hPlace hImage hFound in
/-- The CLI header leads to the metadata. -/
theorem redirect_written : md.places.metadataRva.number out = rva.toNat ∧
    md.places.metadataSize.number out = size.toNat := by
  have hApart := apart_redirectFields md rva size
  have hRva := hRedirect.holds hApart (f := ⟨md.cliOffset + CliHeader.metadataRvaOffset,
    leBytes 4 rva.toNat⟩) (by simp [redirectFields])
  have hSize := hRedirect.holds hApart (f := ⟨md.cliOffset + CliHeader.metadataSizeOffset,
    leBytes 4 size.toNat⟩) (by simp [redirectFields])
  rw [Metadata.places, Places.of, Span.number_ofWidth, Span.number_ofWidth]
  exact ⟨hRva.uintAt_of_lt rva.toNat_lt, hSize.uintAt_of_lt size.toNat_lt⟩

/-- The new entry says where the section is, since nothing that is written later lies on its
numbers. -/
theorem wellPlaced_of_append : WellPlaced md.image md.cliOffset
    (Section.ofBytesAt out md.places.entry.start) out := by
  have hFile := Placement.pos_of_isPowerOfTwo hPlace.fileAlignment
  have hStart := entry_start hImage hPlace
  have hStop : md.places.entry.stop = p.headerOffset + Section.entrySize :=
    congrArg (· + Section.entrySize) hStart
  obtain ⟨hAddress, hOffset, hVirtual, hRaw⟩ :=
    entry_written hImage hFound hPlace hAppended hRedirect
  rw [hStart]
  generalize Section.ofBytesAt out p.headerOffset = new at *
  have hVirtualLe : new.virtualSize.toNat ≤ new.rawSize.toNat := by
    rw [hVirtual, hRaw]
    exact le_alignUp _ hFile
  have hExtent : new.stop = new.address.toNat + new.rawSize.toNat := by
    rw [Section.stop, Section.extent, Nat.max_eq_right hVirtualLe]
  have hBeyond : ∀ s ∈ md.image.headers.sections, s.stop ≤ new.address.toNat := fun s hMem =>
    hAddress ▸ hPlace.stop_le hMem
  exact {
    address_dvd := by
      rw [hAddress, hPlace.rva_eq]
      exact dvd_alignUp _ _
    stop_le := hBeyond
    size_le := hOffset ▸ hPlace.size_le
    rawOffset_dvd := by
      rw [hOffset, hPlace.offset_eq]
      exact dvd_alignUp _ _
    rawSize_dvd := hRaw ▸ dvd_alignUp _ _
    size_eq := by
      rw [hRedirect.size_eq, hAppended.writes.size_eq, Placement.extended, size_resize, hOffset,
        hRaw]
    virtualSize_le := hVirtualLe
    entry_le := Nat.le_trans (Nat.le_of_eq hStop) hPlace.slot_le.1
    entry_le_rawOffset := fun s hMem hSome =>
      Nat.le_trans (Nat.le_of_eq hStop) (hPlace.slot_le.2 s hMem hSome)
    imageSize := fun hApart => by
      have hSize : (Places.of md.image.data md.cliOffset).imageSize.number out = memorySize :=
        imageSize_written hImage hFound hAppended hRedirect hApart
      rw [hSize, hAppended.memorySize_eq, hAddress, hVirtual]
      exact ⟨dvd_alignUp _ _,
        le_alignUp _ (Placement.pos_of_isPowerOfTwo hPlace.memoryAlignment)⟩
    offsetOf_old := fun _ _ hOld => Image.offsetOf_withSection hOld
    offsetOf_new := fun hFits k hk =>
      Image.offsetOf_withSection_new hBeyond (by omega) (by omega) }

omit hImage hPlace hAppended hRedirect in
/-- The rows of the methods say where their bodies are. -/
theorem rows_of_rebuild {base : Nat} {blocks : List Block} {pool : LiteralPool} {metadata : Bytes}
    (hMetadata : md.rebuild pool (blocks.map (Block.redirect base)) = .ok metadata) :
    ∃ source s first, md.stream TableStream.streamName = .ok source ∧
      TableStream.ofBytes source = .ok s ∧
      (∀ root, Root.ofBytes metadata = .ok root → ∃ entry,
        root.stream? TableStream.streamName = some entry ∧ entry.offset.toNat = first) ∧
      ∀ before b after, blocks = before ++ b :: after →
        (∀ b' ∈ after, b'.method.token.row ≠ b.method.token.row) →
          ∃ row, s.rowOffset .methodDef b.method.token.row = .ok row ∧
            metadata.Holds (first + row) (leBytes 4 (b.redirect base).rva.toNat) := by
  have hNames := (Root.known_of_readStreams hFound.readFrom.streams_eq).2
  obtain ⟨source, s, tables, first, hSource, hStream, hTables, hHeld, hListed⟩ :=
    Metadata.tables_of_rebuild (fun e hMem => (hNames e hMem).1) hFound.versionSize_lt hMetadata
  refine ⟨source, s, first, hSource, hStream, hListed, ?_⟩
  rintro before b after rfl hLast
  rw [List.map_append, List.map_cons] at hTables
  obtain ⟨hZero, hRow⟩ := (TableStream.redirect_eq_ok hTables).2 (b.redirect base) (by simp)
  obtain ⟨_, hFrom⟩ := TableStream.readFrom_of_ofBytes hStream
  have hAfter : ∀ r ∈ after.map (Block.redirect base), r.row ≠ (b.redirect base).row := by
    intro r hMem
    obtain ⟨b', hMem', rfl⟩ := List.mem_map.1 hMem
    exact hLast b' hMem'
  have hRowHeld := TableStream.holds_of_redirect hFrom hTables hAfter
  exact ⟨_, TableStream.rowOffset_of_le hZero hRow, hHeld.trans hRowHeld⟩

/-- Blocks that were laid out, and the metadata behind them, fill the section. -/
theorem fills_of_laid {methods : List MethodDef} {blocks : List Block} {bodies metadata : Bytes}
    {pool pool' : LiteralPool} (hPool : literalPool md = .ok pool)
    (hMethods : blocks.map (·.method) = methods.filter (·.body.isSome))
    (hEncodes : Encodes pool blocks pool') (hLaid : Laid bodies 0 blocks)
    (hAddresses : ∀ b ∈ blocks, (b.redirect p.rva).rva.toNat = p.rva + b.start)
    (hMetadata : md.rebuild pool' (blocks.map (Block.redirect p.rva)) = .ok metadata)
    (hContent : content = bodies.padTo 4 ++ metadata)
    (hRva : rva.toNat = p.rva + (bodies.padTo 4).size) (hSize : size.toNat = metadata.size) :
    Fills md methods (Section.ofBytesAt out md.places.entry.start) out blocks metadata
      (bodies.padTo 4).size := by
  obtain ⟨hAddress, hOffset, hVirtual, hRaw⟩ :=
    entry_written hImage hFound hPlace hAppended hRedirect
  obtain ⟨hRvaOut, hSizeOut⟩ := redirect_written hRedirect
  have hHeld := content_written hImage hFound hPlace hAppended hRedirect
  rw [hContent] at hHeld
  obtain ⟨hBodiesHeld, hMetadataHeld⟩ := hHeld.of_padTo (by decide)
  rw [← size_padTo bodies (by decide)] at hMetadataHeld
  rw [entry_start hImage hPlace]
  generalize Section.ofBytesAt out p.headerOffset = new at *
  rw [← hAddress] at hMetadata
  rw [← hAddress] at hAddresses hRva
  rw [← hOffset] at hBodiesHeld hMetadataHeld
  have hBehind : ∀ b ∈ blocks, b.span.stop ≤ (bodies.padTo 4).size := by
    intro b hMem
    have hInside := (hLaid.of_mem hMem).2.2.1
    rw [Array.length_toList] at hInside
    exact Nat.le_trans hInside (agree_padTo bodies 4 (by decide)).2
  have hStop : (bodies.padTo 4).size + metadata.size = new.virtualSize.toNat := by
    rw [hVirtual, hContent, Array.size_append]
  obtain ⟨source, s, first, hSource, hStream, hListed, hRows⟩ :=
    rows_of_rebuild hFound hMetadata
  have hApart : (blocks.map Block.span
      ++ [Span.ofWidth (bodies.padTo 4).size metadata.size]).Pairwise Span.Apart := by
    refine List.pairwise_append.2 ⟨hLaid.pairwise_apart, List.pairwise_singleton _ _, ?_⟩
    intro u hMem v hMem'
    obtain ⟨b, hBlock, rfl⟩ := List.mem_map.1 hMem
    obtain rfl := List.mem_singleton.1 hMem'
    exact .inl (hBehind b hBlock)
  refine {
    methods_eq := hMethods
    rebuilt := ⟨pool, pool', hPool, hEncodes, hMetadata⟩
    bodies_held := fun b hMem => hBodiesHeld.trans (hLaid.of_mem hMem).2.2
    metadata_held := hMetadataHeld
    apart := hApart
    body_le := fun b hMem => Nat.le_trans (hBehind b hMem) (hStop ▸ Nat.le_add_right _ _)
    metadata_stop := hStop
    redirect_eq := hAddresses
    rva_eq := hRvaOut.trans hRva
    size_eq := hSizeOut.trans hSize
    rows := ⟨source, s, first, hSource, hStream, hListed, fun before b after hBlocks hLast => ?_⟩ }
  obtain ⟨row, hRow, hRowHeld⟩ := hRows before b after hBlocks hLast
  refine ⟨row, hRow, ?_⟩
  have hRead := (hMetadataHeld.trans hRowHeld).uintAt_of_lt
    (b.redirect new.address.toNat).rva.toNat_lt
  rw [hAddresses b (by simp [hBlocks]), ← Nat.add_assoc] at hRead
  exact hRead

/-- The bodies and the metadata make up the contents, and the redirects lead to the bodies. -/
theorem fills_of_append {methods : List MethodDef} {bodies metadata : Bytes}
    {redirects : List Redirect} {pool pool' : LiteralPool} (hPool : literalPool md = .ok pool)
    (hBodies : placeBodies p.rva methods #[] [] pool = .ok (bodies, redirects) pool')
    (hMetadata : md.rebuild pool' redirects = .ok metadata)
    (hContent : content = bodies.padTo 4 ++ metadata)
    (hRva : rva.toNat = p.rva + (bodies.padTo 4).size) (hSize : size.toNat = metadata.size) :
    ∃ blocks, Fills md methods (Section.ofBytesAt out md.places.entry.start) out blocks metadata
      (bodies.padTo 4).size := by
  obtain ⟨blocks, hMethods, hEncodes, hRedirects, hAddresses, hLaid, _, _⟩ :=
    laid_of_placeBodies hBodies
  rw [List.reverse_nil, List.nil_append] at hRedirects
  exact ⟨blocks, fills_of_laid hImage hFound hPlace hAppended hRedirect hPool hMethods hEncodes
    hLaid hAddresses (hRedirects ▸ hMetadata) hContent hRva hSize⟩

end Written

/-- The section that is added to the file of a module is well placed, and holds the bodies of the
modified methods and the metadata that leads to them. -/
theorem section_of_toBytes {data out : Bytes} {image : Image} {m : Module}
    (hRead : Image.ofBytes data = .ok image) (hLoaded : m.image = some image)
    (hModified : m.modifiedMethods ≠ []) (hWrite : m.toBytes = .ok out) :
    ∃ md blocks metadata start new, Metadata.locate image = .ok md ∧
      new = Section.ofBytesAt out (Places.of data md.cliOffset).entry.start ∧
      WellPlaced image md.cliOffset new out ∧
      Fills md m.modifiedMethods new out blocks metadata start := by
  have hFrom := Image.ofBytes_eq_ok.1 hRead
  rw [toBytes_of_ne_nil hLoaded hModified] at hWrite
  obtain ⟨md, p, pool, pool', bodies, redirects, rva, size, metadata, data', hMd, hPlace, hPool,
    hBodies, hMetadata, hRva, hSize, hAppend, hRedirect⟩ := steps_of_replaceBodies hWrite
  obtain ⟨entry, dataSize, memorySize, hAppended⟩ := Placement.append_eq_ok hAppend
  have hFound := Metadata.foundIn_of_locate hMd
  obtain rfl := hFound.image_eq
  obtain rfl := hFrom.data_eq
  have hPlaced := Placement.foundIn_of_of hPlace
  have hWrites := redirectHeader_eq_ok hRedirect
  obtain ⟨blocks, hFills⟩ := fills_of_append hFrom hFound hPlaced hAppended hWrites hPool hBodies
    hMetadata rfl (word_eq_ok hRva) (word_eq_ok hSize)
  exact ⟨md, blocks, metadata, _, _, hMd, rfl,
    wellPlaced_of_append hFrom hFound hPlaced hAppended hWrites, hFills⟩

theorem section_of_toBytes_selfCall : ∃ (image : Image) (m : Module) (out : Bytes),
    Image.ofBytes selfCall = .ok image ∧ m.image = some image ∧ m.modifiedMethods ≠ [] ∧
      m.toBytes = .ok out ∧ (∃ md blocks metadata start new, Metadata.locate image = .ok md ∧
        new = Section.ofBytesAt out (Places.of selfCall md.cliOffset).entry.start ∧
        WellPlaced image md.cliOffset new out ∧
        Fills md m.modifiedMethods new out blocks metadata start) ∧
      ∃ md, Metadata.locate image = .ok md ∧
        ∀ u ∈ md.places.redirected selfCall, u.Apart md.places.imageSize := by
  obtain ⟨md, m, out, hRead, _, hMd, hImage, hModified, hWrite, hApart⟩ := written_selfCall
  exact ⟨md.image, m, out, hRead, hImage, hModified, hWrite,
    section_of_toBytes hRead hImage hModified hWrite, md, hMd,
    Places.redirected_apart_imageSize hApart selfCall⟩

/-- Patches the module of a file and writes it again. Gives the alignment of sections and the size
of the image that the new file states. -/
def statedSize (config : Patch.Config) (data : Bytes) : Except Fault (Nat × Nat) := do
  let image ← Image.ofBytes data
  let m ← ofImage image
  let md ← Metadata.locate image
  match patch config m with
  | .error fault _ => .error fault
  | .ok _ m' =>
    let out ← m'.toBytes
    return (image.optional.sectionAlignment.toNat, md.places.imageSize.number out)

/-- A file with a CLI header inside the optional header. The flags are where the size of the image
is, and say that there is a strong name signature. -/
def overlaid : Bytes :=
  let headers := sampleHeaders 2 216 424 424
  let cli := [leBytes 4 72, leBytes 2 2, leBytes 2 5, leBytes 4 504, leBytes 4 120, leBytes 4 9]
  [headers.take 128, cli.flatten, headers.drop 148,
    .replicate 8 0, leBytes 4 72, leBytes 4 424, leBytes 4 0, leBytes 4 128, .replicate 16 0,
    [0x2E, 0x74, 0x65, 0x78, 0x74, 0, 0, 0], leBytes 4 200, leBytes 4 424, leBytes 4 200,
    leBytes 4 424, .replicate 56 0, sampleCode 504, sampleMetadata 496].flatten.toArray

/-- The size of the image was overwritten by the flags, and is no multiple of the alignment. -/
theorem statedSize_overlaid : (statedSize sampleConfig overlaid).toOption = some (8, 1) := by
  unfold statedSize ofImage toBytes replaceBodies literalPool Streams.ofMetadata
    Placement.append Metadata.rebuild Metadata.stream Metadata.stream? Metadata.locate Image.slice
    Bytes.slice
  simp only [resize_eq_toArray, append_eq_toArray, extract_eq_toArray]
  decide +kernel

/-- The stated size of the image is not always a multiple of the alignment. -/
theorem not_imageSize_of_toBytes : ¬ ∀ (data out : Bytes) (image : Image) (m : Module)
    (md : Metadata), Image.ofBytes data = .ok image → m.image = some image →
      m.modifiedMethods ≠ [] → m.toBytes = .ok out → Metadata.locate image = .ok md →
        image.optional.sectionAlignment.toNat
          ∣ (Places.of data md.cliOffset).imageSize.number out := by
  intro hAll
  have hOk : statedSize sampleConfig overlaid = .ok (8, 1) := by
    have hSome := statedSize_overlaid
    cases hResult : statedSize sampleConfig overlaid with
    | error fault => rw [hResult] at hSome; cases hSome
    | ok value => rw [hResult] at hSome; exact congrArg _ (Option.some.inj hSome)
  obtain ⟨image, hRead, hOk⟩ := Except.bind_eq_ok.1 hOk
  obtain ⟨m, hLoad, hOk⟩ := Except.bind_eq_ok.1 hOk
  obtain ⟨md, hMd, hOk⟩ := Except.bind_eq_ok.1 hOk
  split at hOk
  · cases hOk
  rename_i report m' hPatch
  obtain ⟨out, hWrite, hOk⟩ := Except.bind_eq_ok.1 hOk
  obtain ⟨_, _, hFrom⟩ := loadedFrom_of_ofImage hLoad
  obtain ⟨hImage, hModified⟩ := modifiedMethods_of_patch hPatch
  have hDivides := hAll overlaid out image m' md hRead (hImage.trans hFrom.image_eq) hModified
    hWrite hMd
  obtain ⟨hAlignment, hNumber⟩ := Prod.mk.inj (Except.ok.inj hOk)
  rw [Metadata.places, (Metadata.foundIn_of_locate hMd).image_eq,
    (Image.ofBytes_eq_ok.1 hRead).data_eq] at hNumber
  rw [hAlignment, hNumber] at hDivides
  exact absurd hDivides (by decide)

end Module

end IlSplice
