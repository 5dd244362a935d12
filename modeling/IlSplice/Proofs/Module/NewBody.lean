import IlSplice.Proofs.Module.Loadable
import IlSplice.Proofs.Module.Rewritten

/-! A module that was written with a new body for one of its methods. Everything that was found in
the old file is found in the new one, which is loaded exactly if the new section and the metadata in
it are within the bounds of loading. -/

namespace IlSplice

open Bytes

/-- The new section does not start at address zero, because the CLI header is in front of it. -/
theorem Placement.FoundIn.rva_pos {md : Metadata} {p : Placement} (hPlace : p.FoundIn md.image)
    (hFound : md.FoundIn md.image) : 0 < p.rva := by
  have hOffset := hFound.cliOffset
  unfold Image.offsetOf at hOffset
  split at hOffset
  · cases hOffset
  · obtain ⟨s, hMem, hLess⟩ := Image.lt_of_offsetIn hOffset
    have := hPlace.stop_le hMem
    omega

namespace Module

/-- The method of a row has a new body in the file that was written. No body lies in the parts of
the old file that were brought up to date in place. -/
structure WrittenWith (md : Metadata) (p : Placement) (s : Streams) (r : Redirect)
    (pool pool' : LiteralPool) (code block : Bytes) (rva size : UInt32) (out : Bytes)
    (m : Module) : Prop where
  readFrom : md.image.ReadFrom md.image.data
  loaded : m.LoadedFrom md.image md s
  placed : p.FoundIn md.image
  clear : Clear md p
  bodies : ∀ t ∈ m.types, ∀ method ∈ t.methods, ∀ span, method.Occupies md.image span →
    ∀ u ∈ md.updated p, u.Apart span
  literals : literalPool md = .ok pool
  sound : pool'.Sound
  grows : pool.Grows pool'
  row_le : r.row ≤ TableStream.maxRows
  address_eq : r.rva.toNat = p.rva
  rebuild : md.rebuild pool' [r] = .ok block
  rewritten : Rewritten md p (code.padTo 4 ++ block) rva size out
  rva_eq : rva.toNat = p.rva + (code.padTo 4).size
  size_eq : size.toNat = block.size

namespace WrittenWith

variable {md md' : Metadata} {p : Placement} {s s' : Streams} {r : Redirect}
  {pool pool' : LiteralPool} {code block out : Bytes} {rva size : UInt32} {m : Module}
  {image' : Image} (h : m.WrittenWith md p s r pool pool' code block rva size out)

include h

theorem found : md.FoundIn md.image := Metadata.foundIn_of_locate h.loaded.metadata

/-- The new file has the old sections in their order, and one more. -/
theorem sections (hRead : image'.ReadFrom out) : image'.cli = md.image.cli ∧
    image'.headers.sections
      = md.image.headers.sections ++ [Section.ofBytesAt out p.headerOffset] :=
  h.rewritten.sections h.readFrom h.placed h.clear hRead

/-- Everything that was found in the old file is found in the new one, since no address leads
elsewhere and no body was overwritten. -/
theorem keeps (hRead : image'.ReadFrom out) :
    md.image.Keeps image' fun method => ∃ t ∈ m.types, method ∈ t.methods := by
  refine ⟨fun _ _ => (h.rewritten.offsetOf h.placed (h.sections hRead).2).1,
    hRead.data_eq ▸ h.rewritten.size_ge, ?_⟩
  rintro method ⟨t, hType, hMethod⟩ span hOccupies
  obtain ⟨_, _, hScan⟩ := hOccupies.2.2
  rw [hRead.data_eq]
  exact h.rewritten.old span (MethodBody.scan_congr hScan).2.1
    (Metadata.apart_written (h.bodies t hType method hMethod span hOccupies))

/-- The metadata that is found is the rebuilt one. -/
theorem rebuild_eq (hFound : md'.FoundIn md'.image) (hRead : md'.image.ReadFrom out) :
    md.rebuild pool' [r] = .ok md'.block := by
  rw [h.rewritten.block h.readFrom h.found h.placed h.clear hRead hFound h.rva_eq h.size_eq]
  exact h.rebuild

/-- The tables, names and literals of the new file are those of the old one, with the redirect and
the literals that were added. -/
theorem carries (hFound : md'.FoundIn md'.image) (hRead : md'.image.ReadFrom out)
    (hStreams : Streams.ofMetadata md' = .ok s') : s.Carries s' [r] pool' :=
  Streams.carries_of_rebuild h.found hFound (h.rebuild_eq hFound hRead) h.loaded.streams
    hStreams h.literals h.sound h.grows

/-- The new body starts where the new section does. -/
theorem code_held : out.Holds p.offset code.toList := by
  have hHolds := h.rewritten.new
  rw [Array.toList_append, Bytes.padTo, Array.toList_append] at hHolds
  exact (holds_append.1 (holds_append.1 hHolds).1).1

/-- The rebuilt metadata is behind the new body. -/
theorem block_held : out.Holds (p.offset + (code.padTo 4).size) block.toList := by
  have hHolds := h.rewritten.new
  rw [Array.toList_append, holds_append, Array.length_toList] at hHolds
  exact hHolds.2

/-- The address of the new body leads to where the body was put, in whichever way the new file is
read. -/
theorem offset_eq {offset : Nat} (hRead : image'.ReadFrom out)
    (hOffset : image'.offsetOf r.rva.toNat = .ok offset) : offset = p.offset := by
  obtain ⟨_, hPlace⟩ := (h.rewritten.offsetOf h.placed (h.sections hRead).2).2
    (Nat.le_of_eq h.address_eq.symm) hOffset
  rw [hPlace, h.address_eq, Nat.sub_self, Nat.add_zero]

theorem block_size : 36 ≤ block.size :=
  Metadata.minimum_of_rebuild (fun e hMem => h.found.names_known e hMem) h.rebuild

/-- The CLI header of the new file leads to the metadata, unless that is too large. -/
theorem exists_header (hMax : size.toNat ≤ CliHeader.maxMetadataSize) : ∃ cli,
    CliHeader.ofBytes (out.extract md.cliOffset (md.cliOffset + CliHeader.byteSize)) = .ok cli ∧
      cli.metadata.rva.toNat = rva.toNat ∧ cli.metadata.size.toNat = size.toNat := by
  have hInside := Nat.le_trans h.found.cli_le h.rewritten.size_ge
  have hNumber : ∀ offset, offset + 4 ≤ CliHeader.byteSize →
      Bytes.uintAt (out.extract md.cliOffset (md.cliOffset + CliHeader.byteSize)) offset 4
        = out.uintAt (md.cliOffset + offset) 4 := fun _ hField => uintAt_extract (by omega)
  have hPos := h.placed.rva_pos h.found
  have hRva := h.rva_eq
  have hSize := h.size_eq
  have hMinimum := h.block_size
  obtain ⟨cli, hHeader⟩ := CliHeader.exists_ofBytes_iff.2 (by
    rw [hNumber 0 (by decide), hNumber CliHeader.metadataRvaOffset (by decide),
      hNumber CliHeader.metadataSizeOffset (by decide), Nat.add_zero, h.rewritten.cliSize,
      h.rewritten.rva_eq, h.rewritten.size_eq, Array.size_extract]
    exact ⟨by omega, rfl, by omega, by omega, hMax⟩)
  have hFields := CliHeader.readFrom_of_ofBytes hHeader
  refine ⟨cli, hHeader, ?_, ?_⟩
  · rw [hFields.rva_eq, hNumber CliHeader.metadataRvaOffset (by decide), h.rewritten.rva_eq]
  · rw [hFields.size_eq, hNumber CliHeader.metadataSizeOffset (by decide), h.rewritten.size_eq]

/-- The metadata of the new file is found exactly if its root can be read, and it and the new
section are not too large. -/
theorem exists_locate_iff (hRead : image'.ReadFrom out) :
    (∃ md', Metadata.locate image' = .ok md') ↔ (∃ root, Root.ofBytes block = .ok root) ∧
      size.toNat ≤ CliHeader.maxMetadataSize ∧
      (Section.ofBytesAt out p.headerOffset).stop < 0x100000000 := by
  obtain ⟨hCli, hSections⟩ := h.sections hRead
  have hCliOffset : image'.offsetOf image'.cli.rva.toNat = .ok md.cliOffset := by
    rw [hCli]
    exact (h.rewritten.offsetOf h.placed hSections).1 h.found.cliOffset
  constructor
  · rintro ⟨md', hLocate⟩
    have hFound' := Metadata.foundIn_of_locate hLocate
    obtain rfl := hFound'.image_eq
    have hSame : md'.cliOffset = md.cliOffset :=
      Except.ok.inj (hFound'.cliOffset.symm.trans hCliOffset)
    obtain ⟨_, hRva, hSize, _⟩ := hFound'.cli_fields
    rw [hRead.data_eq, hSame, h.rewritten.rva_eq] at hRva
    rw [hRead.data_eq, hSame, h.rewritten.size_eq] at hSize
    have hBlock := h.rewritten.block h.readFrom h.found h.placed h.clear hRead hFound' h.rva_eq
      h.size_eq
    refine ⟨⟨md'.root, ?_⟩, hSize ▸ hFound'.cli.size_le_max, ?_⟩
    · rw [← hBlock]
      exact hFound'.root
    · refine ((h.rewritten.offsetOf h.placed hSections).2 ?_ hFound'.offset).1
      rw [hRva, h.rva_eq]
      exact Nat.le_add_right _ _
  · rintro ⟨⟨root, hRoot⟩, hMax, hFits⟩
    have hMinimum := h.block_size
    obtain ⟨_, hDirectory, hDirectorySize, _, _, _, _, _, _, hLoose⟩ :=
      Metadata.locate_eq_ok.1 h.loaded.metadata
    obtain ⟨cli, hHeader, hRva, hSize⟩ := h.exists_header hMax
    have hExtract := h.block_held.extract
    have hInside := h.block_held.1
    rw [Array.length_toList] at hInside
    rw [Array.length_toList, Array.toArray_toList] at hExtract
    refine ⟨⟨image', md.cliOffset, cli, p.offset + (code.padTo 4).size, root⟩,
      Metadata.locate_eq_ok.2 ⟨rfl, hCli ▸ hDirectory, hCli ▸ hDirectorySize, hCliOffset,
        ?_, ?_, ?_, ?_, ?_, ?_⟩⟩
    · rw [hRead.data_eq]
      exact Nat.le_trans h.found.cli_le h.rewritten.size_ge
    · rw [hRead.data_eq]
      exact hHeader
    · dsimp only
      rw [hRva, h.rva_eq]
      refine h.rewritten.offsetOf_content h.placed hSections hFits ?_
      rw [Array.size_append]
      omega
    · dsimp only
      rw [hRead.data_eq, hSize, h.size_eq]
      exact hInside
    · dsimp only
      rw [hRead.data_eq, hSize, h.size_eq, hExtract]
      exact hRoot
    · obtain ⟨_, _, _, _, _, _, hSome, _⟩ := Metadata.stream?_of_rebuild
        (fun e hMem => h.found.names_known e hMem) h.found.versionSize_lt h.rebuild hRoot
      have hNone := hSome TableStream.looseStreamName
      rw [Metadata.stream?_withLiterals pool' (by decide), hLoose, Option.isSome_none] at hNone
      exact Option.not_isSome_iff_eq_none.1 (by simp [hNone])

/-- The method with the new body is loaded from the new file, if the body can be read there. -/
theorem exists_load {method : MethodDef} (hRead : image'.ReadFrom out)
    (hCarries : s.Carries s' [r] pool')
    (hFits : (Section.ofBytesAt out p.headerOffset).stop < 0x100000000)
    (hBody : ∃ b stop, MethodBody.scan s'.resolver out p.offset = .ok b stop)
    (hMethod : MethodDef.load md.image s r.row = .ok method) :
    ∃ method', MethodDef.load image' s' r.row = .ok method' := by
  obtain ⟨columns, hFrom⟩ := MethodDef.loadedFrom_of_load hMethod
  have hColumns := hCarries.method hFrom.columns_eq
  rw [if_pos rfl] at hColumns
  have hOffset : image'.offsetOf r.rva.toNat = .ok p.offset := by
    have hMinimum := h.block_size
    have hStart := h.rewritten.offsetOf_content h.placed (h.sections hRead).2 hFits
      (k := 0) (by rw [Array.size_append]; omega)
    rwa [Nat.add_zero, Nat.add_zero, ← h.address_eq] at hStart
  refine MethodDef.exists_load_iff.2 ⟨_, method.name, hColumns,
    hCarries.name _ _ hFrom.name_eq, fun _ => ?_⟩
  obtain ⟨b, stop, hScan⟩ := hBody
  rw [← hRead.data_eq] at hScan
  exact ⟨b, (MethodBody.load_eq_ok _ _).2 ⟨p.offset, stop, hOffset,
    hRead.data_eq ▸ h.code_held.offset_le, hScan⟩⟩

/-- The new file is loaded exactly if it is accepted, the root of its metadata can be read, and the
metadata and the new section are not too large. -/
theorem exists_ofBytes_iff
    (hBody : ∀ resolver : Resolver, s.resolver.Extends resolver →
      (∀ t text, t.table = Token.literalTable → (Text.units text, t.row) ∈ pool'.known →
        resolver.literal t = .ok text) →
      ∃ b stop, MethodBody.scan resolver out p.offset = .ok b stop) :
    (∃ again, ofBytes out = .ok again) ↔
      (∃ image, Image.ofBytes out = .ok image) ∧ (∃ root, Root.ofBytes block = .ok root) ∧
        size.toNat ≤ CliHeader.maxMetadataSize ∧
        (Section.ofBytesAt out p.headerOffset).stop < 0x100000000 := by
  constructor
  · rintro ⟨again, hLoad⟩
    obtain ⟨image, hImage, hOfImage⟩ := Except.bind_eq_ok.1 hLoad
    obtain ⟨md', hLocate, _⟩ := Except.bind_eq_ok.1 hOfImage
    exact ⟨⟨image, hImage⟩, (h.exists_locate_iff (Image.ofBytes_eq_ok.1 hImage)).1
      ⟨md', hLocate⟩⟩
  · rintro ⟨⟨image, hImage⟩, hBounds⟩
    have hRead := Image.ofBytes_eq_ok.1 hImage
    obtain ⟨md', hLocate⟩ := (h.exists_locate_iff hRead).2 hBounds
    have hFound' := Metadata.foundIn_of_locate hLocate
    obtain rfl := hFound'.image_eq
    obtain ⟨s', hStreams⟩ := Streams.exists_ofMetadata_of_rebuild h.found hFound'
      (h.rebuild_eq hFound' hRead) h.loaded.streams h.literals h.grows
    have hCarries := h.carries hFound' hRead hStreams
    obtain ⟨again, hAgain⟩ := exists_ofImage hCarries (h.keeps hRead) h.loaded hLocate hStreams
      fun method hMethod => h.exists_load hRead hCarries hBounds.2.2
        (hBody s'.resolver hCarries.resolver_extends hCarries.added) hMethod
    exact ⟨again, Except.bind_eq_ok.2 ⟨_, hImage, hAgain⟩⟩

end WrittenWith

end Module

end IlSplice
