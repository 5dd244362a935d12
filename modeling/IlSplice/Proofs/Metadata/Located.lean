import IlSplice.Module.Write
import IlSplice.Proofs.Image.Placement
import IlSplice.Proofs.Metadata.Root

/-! Where the metadata of an image is. The CLI header is found through its directory, and the
header says where the root is and how far its streams may reach. -/

namespace IlSplice

open Bytes

namespace CliHeader

/-- The fields of the header that lead to the metadata, and the flags behind them. -/
structure ReadFrom (data : Bytes) (cli : CliHeader) : Prop where
  byteSize_le : byteSize ≤ data.size
  byteSize_eq : data.uintAt 0 4 = byteSize
  rva_eq : cli.metadata.rva.toNat = data.uintAt metadataRvaOffset 4
  rva_ne : cli.metadata.rva ≠ 0
  size_eq : cli.metadata.size.toNat = data.uintAt metadataSizeOffset 4
  size_ne : cli.metadata.size ≠ 0
  size_le_max : cli.metadata.size.toNat ≤ maxMetadataSize
  flags_eq : cli.flags.toNat = data.uintAt flagsOffset 4

theorem readFrom_of_ofBytes {data : Bytes} {cli : CliHeader} (hRead : ofBytes data = .ok cli) :
    cli.ReadFrom data := by
  unfold ofBytes at hRead
  split at hRead
  · cases hRead
  rename_i hSize
  obtain ⟨stop, hScan⟩ := Scan.evalAt_eq_ok.1 hRead
  obtain ⟨size, p₁, h₁, hScan⟩ := Scan.bind_eq_ok hScan
  split at hScan
  · cases hScan
  rename_i hByteSize
  obtain ⟨major, p₂, h₂, hScan⟩ := Scan.bind_eq_ok hScan
  obtain ⟨minor, p₃, h₃, hScan⟩ := Scan.bind_eq_ok hScan
  obtain ⟨rva, p₄, h₄, hScan⟩ := Scan.bind_eq_ok hScan
  split at hScan
  · cases hScan
  rename_i hRva
  obtain ⟨length, p₅, h₅, hScan⟩ := Scan.bind_eq_ok hScan
  split at hScan
  · cases hScan
  rename_i hEmpty
  split at hScan
  · cases hScan
  rename_i hLength
  obtain ⟨flags, p₆, h₆, hScan⟩ := Scan.bind_eq_ok hScan
  obtain ⟨entryPoint, p₇, _, hScan⟩ := Scan.bind_eq_ok hScan
  obtain ⟨resources, p₈, _, hScan⟩ := Scan.bind_eq_ok hScan
  obtain ⟨strongName, p₉, _, hScan⟩ := Scan.bind_eq_ok hScan
  obtain ⟨_, p₁₀, _, hScan⟩ := Scan.bind_eq_ok hScan
  obtain ⟨fixups, p₁₁, _, hScan⟩ := Scan.bind_eq_ok hScan
  obtain ⟨rfl, _⟩ := Scan.pure_eq_ok.1 hScan
  obtain ⟨rfl, _, rfl⟩ := Scan.uint_map_eq_ok h₁
  obtain ⟨rfl, _, _⟩ := Scan.uint_map_eq_ok h₂
  obtain ⟨rfl, _, _⟩ := Scan.uint_map_eq_ok h₃
  obtain ⟨rfl, _, rfl⟩ := Scan.uint_map_eq_ok h₄
  obtain ⟨rfl, _, rfl⟩ := Scan.uint_map_eq_ok h₅
  obtain ⟨rfl, _, rfl⟩ := Scan.uint_map_eq_ok h₆
  rw [not_not, toNat_ofNat_uintAt] at hByteSize
  exact ⟨Nat.le_of_not_lt hSize, hByteSize, toNat_ofNat_uintAt data _, hRva,
    toNat_ofNat_uintAt data _, hEmpty, Nat.le_of_not_lt hLength, toNat_ofNat_uintAt data _⟩

/-- A header is accepted exactly if all of it is there, it states its size, and the metadata that it
leads to is neither empty nor too large. -/
theorem exists_ofBytes_iff {data : Bytes} : (∃ cli, ofBytes data = .ok cli) ↔
    byteSize ≤ data.size ∧ data.uintAt 0 4 = byteSize ∧ data.uintAt metadataRvaOffset 4 ≠ 0 ∧
      data.uintAt metadataSizeOffset 4 ≠ 0 ∧
      data.uintAt metadataSizeOffset 4 ≤ maxMetadataSize := by
  constructor
  · rintro ⟨cli, hRead⟩
    obtain ⟨hSize, hSame, hRva, hRvaNe, hLength, hLengthNe, hMax, _⟩ := readFrom_of_ofBytes hRead
    rw [← hRva, ← hLength]
    exact ⟨hSize, hSame, fun hNone => hRvaNe (UInt32.toNat_inj.1 hNone),
      fun hNone => hLengthNe (UInt32.toNat_inj.1 hNone), hMax⟩
  · rintro ⟨hSize, hSame, hRva, hLength, hMax⟩
    have hAll : 72 ≤ data.size := hSize
    have hNonzero : ∀ offset, data.uintAt offset 4 ≠ 0 →
        UInt32.ofNat (data.uintAt offset 4) ≠ 0 := by
      intro offset hNumber hNone
      rw [← UInt32.toNat_inj, toNat_ofNat_uintAt] at hNone
      exact hNumber hNone
    have hRvaNe : UInt32.ofNat (data.uintAt (0 + 4 + 2 + 2) 4) ≠ 0 := hNonzero _ hRva
    have hLengthNe : UInt32.ofNat (data.uintAt (0 + 4 + 2 + 2 + 4) 4) ≠ 0 := hNonzero _ hLength
    have hFits : ¬ maxMetadataSize < (UInt32.ofNat (data.uintAt (0 + 4 + 2 + 2 + 4) 4)).toNat := by
      rw [toNat_ofNat_uintAt]
      exact Nat.not_lt.2 hMax
    have hScan : ∃ cli stop, scan data 0 = .ok cli stop := by
      simp only [scan, scanExtent, Scan.u32, Scan.u16, bind_assoc, pure_bind]
      rw [Scan.uint_bind_of_le (by omega), toNat_ofNat_uintAt, if_neg (not_not.2 hSame),
        Scan.uint_bind_of_le (by omega), Scan.uint_bind_of_le (by omega),
        Scan.uint_bind_of_le (by omega), if_neg hRvaNe, Scan.uint_bind_of_le (by omega),
        if_neg hLengthNe, if_neg hFits]
      -- Nothing is asked of the other fields but that they are there.
      iterate 6 rw [Scan.uint_bind_of_le (by omega)]
      rw [Scan.skip_bind, if_pos (by omega), Scan.uint_bind_of_le (by omega),
        Scan.uint_bind_of_le (by omega)]
      exact ⟨_, _, rfl⟩
    obtain ⟨cli, stop, hScan⟩ := hScan
    refine ⟨cli, ?_⟩
    rw [ofBytes, if_neg (Nat.not_lt.2 hSize)]
    exact Scan.evalAt_eq_ok.2 ⟨stop, hScan⟩

end CliHeader

namespace Metadata

variable {image : Image} {md : Metadata} {name : String}

/-- What is known of metadata that was found in an image. -/
structure FoundIn (md : Metadata) (image : Image) : Prop where
  image_eq : md.image = image
  cliRva_pos : 0 < image.cli.rva.toNat
  cliOffset : image.offsetOf image.cli.rva.toNat = .ok md.cliOffset
  cli_le : md.cliOffset + CliHeader.byteSize ≤ image.data.size
  cli : md.cli.ReadFrom
    (image.data.extract md.cliOffset (md.cliOffset + CliHeader.byteSize))
  offset : image.offsetOf md.cli.metadata.rva.toNat = .ok md.offset
  size_le : md.offset + md.cli.metadata.size.toNat ≤ image.data.size
  root : Root.ofBytes
    (image.data.extract md.offset (md.offset + md.cli.metadata.size.toNat)) = .ok md.root

/-- Metadata is found by way of the CLI header, unless there are tables in the loose layout. -/
theorem locate_eq_ok : locate image = .ok md ↔
    md.image = image ∧ image.cli.rva ≠ 0 ∧ CliHeader.byteSize ≤ image.cli.size.toNat ∧
      image.offsetOf image.cli.rva.toNat = .ok md.cliOffset ∧
      md.cliOffset + CliHeader.byteSize ≤ image.data.size ∧
      CliHeader.ofBytes (image.data.extract md.cliOffset (md.cliOffset + CliHeader.byteSize))
        = .ok md.cli ∧
      image.offsetOf md.cli.metadata.rva.toNat = .ok md.offset ∧
      md.offset + md.cli.metadata.size.toNat ≤ image.data.size ∧
      Root.ofBytes (image.data.extract md.offset (md.offset + md.cli.metadata.size.toNat))
        = .ok md.root ∧
      md.root.stream? TableStream.looseStreamName = none := by
  constructor
  · intro hLocate
    obtain ⟨⟨cliRva, cliSize⟩, hExtent, hLocate⟩ := Except.bind_eq_ok.1 hLocate
    unfold Image.cliExtent at hExtent
    split at hExtent
    · cases hExtent
    rename_i hRva
    cases hExtent
    dsimp only at hLocate
    split at hLocate
    · cases hLocate
    rename_i hSize
    obtain ⟨cliOffset, hCliOffset, hLocate⟩ := Except.bind_eq_ok.1 hLocate
    obtain ⟨cliData, hCliData, hLocate⟩ := Except.bind_eq_ok.1 hLocate
    obtain ⟨cli, hCli, hLocate⟩ := Except.bind_eq_ok.1 hLocate
    obtain ⟨offset, hOffset, hLocate⟩ := Except.bind_eq_ok.1 hLocate
    obtain ⟨rootData, hRootData, hLocate⟩ := Except.bind_eq_ok.1 hLocate
    obtain ⟨root, hRoot, hLocate⟩ := Except.bind_eq_ok.1 hLocate
    split at hLocate
    · cases hLocate
    rename_i hLoose
    cases hLocate
    obtain ⟨_, hCliSize, rfl⟩ := slice_eq_ok hCliData
    obtain ⟨_, hRootSize, rfl⟩ := slice_eq_ok hRootData
    exact ⟨rfl, hRva, Nat.le_of_not_lt hSize, hCliOffset, hCliSize, hCli, hOffset, hRootSize, hRoot,
      by simpa using hLoose⟩
  · rintro ⟨rfl, hRva, hSize, hCliOffset, hCliSize, hCli, hOffset, hRootSize, hRoot, hLoose⟩
    refine Except.bind_eq_ok.2 ⟨(md.image.cli.rva.toNat, md.image.cli.size.toNat), if_neg hRva, ?_⟩
    dsimp only
    rw [if_neg (Nat.not_lt.2 hSize)]
    refine Except.bind_eq_ok.2 ⟨_, hCliOffset, Except.bind_eq_ok.2
      ⟨_, if_pos ⟨Nat.le_add_right _ _, hCliSize⟩, Except.bind_eq_ok.2 ⟨_, hCli, ?_⟩⟩⟩
    refine Except.bind_eq_ok.2 ⟨_, hOffset, Except.bind_eq_ok.2
      ⟨_, if_pos ⟨Nat.le_add_right _ _, hRootSize⟩, Except.bind_eq_ok.2 ⟨_, hRoot, ?_⟩⟩⟩
    rw [hLoose]
    rfl

/-- Where everything lies, and the bounds that the loader has checked on the way. -/
theorem foundIn_of_locate (hLocate : locate image = .ok md) : md.FoundIn image := by
  obtain ⟨hImage, hRva, _, hCliOffset, hCliSize, hCli, hOffset, hRootSize, hRoot, _⟩ :=
    locate_eq_ok.1 hLocate
  exact ⟨hImage, UInt32.pos_iff_ne_zero.2 hRva, hCliOffset, hCliSize,
    CliHeader.readFrom_of_ofBytes hCli, hOffset, hRootSize, hRoot⟩

/-- The fields of the CLI header at their places in the file. -/
theorem FoundIn.cli_fields (hFound : md.FoundIn image) :
    image.data.uintAt md.cliOffset 4 = CliHeader.byteSize ∧
      md.cli.metadata.rva.toNat
        = image.data.uintAt (md.cliOffset + CliHeader.metadataRvaOffset) 4 ∧
      md.cli.metadata.size.toNat
        = image.data.uintAt (md.cliOffset + CliHeader.metadataSizeOffset) 4 ∧
      md.cli.flags.toNat = image.data.uintAt (md.cliOffset + CliHeader.flagsOffset) 4 := by
  obtain ⟨_, hSame, hRva, _, hSize, _, _, hFlags⟩ := hFound.cli
  rw [uintAt_extract (by simp [CliHeader.byteSize])] at hSame
  rw [uintAt_extract (by simp [CliHeader.metadataRvaOffset, CliHeader.byteSize])] at hRva
  rw [uintAt_extract (by simp [CliHeader.metadataSizeOffset, CliHeader.byteSize])] at hSize
  rw [uintAt_extract (by simp [CliHeader.flagsOffset, CliHeader.byteSize])] at hFlags
  exact ⟨hSame, hRva, hSize, hFlags⟩

/-- The whole metadata. -/
def block (md : Metadata) : Bytes :=
  md.image.data.extract md.offset (md.offset + md.cli.metadata.size.toNat)

theorem FoundIn.size_block (hFound : md.FoundIn image) :
    md.block.size = md.cli.metadata.size.toNat := by
  have := hFound.size_le
  rw [block, hFound.image_eq, Array.size_extract]
  omega

/-- The root was read from the start of the metadata. -/
theorem FoundIn.readFrom (hFound : md.FoundIn image) : md.root.ReadFrom md.block := by
  have hRoot := hFound.root
  rw [← hFound.image_eq] at hRoot
  exact Root.readFrom_of_ofBytes hRoot

/-- The version text lies in the metadata, and so it is no longer than that may be. -/
theorem FoundIn.versionSize_le (hFound : md.FoundIn image) :
    md.root.versionSize ≤ CliHeader.maxMetadataSize := by
  have hLength := hFound.readFrom.version_le
  have hSize := hFound.size_block
  have hMax := hFound.cli.size_le_max
  unfold Root.versionSize alignUp
  omega

/-- A version field that is rounded up still has a size that can be written. -/
theorem FoundIn.versionSize_lt (hFound : md.FoundIn image) : md.root.versionSize < byteRange 4 :=
  Nat.lt_of_le_of_lt hFound.versionSize_le (by decide)

/-- Streams with other names are refused when the root is read. -/
theorem FoundIn.names_known (hFound : md.FoundIn image) :
    ∀ e ∈ md.root.streams, e.name ∈ StreamEntry.knownNames := fun e hMem =>
  ((Root.known_of_readStreams hFound.readFrom.streams_eq).2 e hMem).1

/-- All streams lie inside the metadata, and so their contents are always there. -/
theorem FoundIn.stream?_eq (hFound : md.FoundIn image) (name : String) :
    md.stream? name = .ok ((md.root.stream? name).map fun entry =>
      md.block.extract entry.offset.toNat (entry.offset.toNat + entry.size.toNat)) := by
  rw [stream?]
  cases hEntry : md.root.stream? name with
  | none => rfl
  | some entry =>
      have hKnown := (Root.known_of_readStreams hFound.readFrom.streams_eq).2 entry
        (List.mem_of_find?_eq_some hEntry)
      rw [hFound.size_block] at hKnown
      have hSize := hFound.size_le
      have hInside : md.offset + entry.offset.toNat ≤ md.offset + entry.offset.toNat
          + entry.size.toNat ∧ md.offset + entry.offset.toNat + entry.size.toNat
            ≤ md.image.data.size := by
        rw [hFound.image_eq]
        omega
      dsimp only
      rw [if_neg (by omega), Image.slice, slice, if_pos hInside, Option.map_some, block,
        Array.extract_extract, Nat.min_eq_left (by omega), Nat.add_assoc]
      rfl

end Metadata

namespace Module

/-- The fields of the CLI header that lead to other metadata. -/
def redirectFields (md : Metadata) (rva size : UInt32) : List Field :=
  [⟨md.cliOffset + CliHeader.metadataRvaOffset, leBytes 4 rva.toNat⟩,
    ⟨md.cliOffset + CliHeader.metadataSizeOffset, leBytes 4 size.toNat⟩]
  ++ if md.cli.flags.toNat.testBit CliHeader.strongNameSigned then
    [⟨md.cliOffset + CliHeader.flagsOffset,
      leBytes 4 (md.cli.flags.toNat - 1 <<< CliHeader.strongNameSigned)⟩]
  else []

/-- Two fields of the CLI header are overwritten, and a third one if the image was signed. -/
theorem redirectHeader_eq_ok {md : Metadata} {data out : Bytes} {rva size : UInt32}
    (hRedirect : redirectHeader md data rva size = .ok out) :
    Overwrites data (redirectFields md rva size) out := by
  obtain ⟨first, hFirst, hRedirect⟩ := Except.bind_eq_ok.1 hRedirect
  obtain ⟨second, hSecond, hRedirect⟩ := Except.bind_eq_ok.1 hRedirect
  refine .cons hFirst (.cons hSecond ?_)
  dsimp only at hRedirect
  split at hRedirect
  · rename_i hFlag
    rw [if_pos hFlag]
    exact .cons hRedirect .nil
  · rename_i hFlag
    rw [if_neg hFlag]
    cases hRedirect
    exact .nil

end Module

end IlSplice
