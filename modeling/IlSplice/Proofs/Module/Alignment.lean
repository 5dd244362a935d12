import IlSplice.Proofs.Module.Appended

/-! The alignment of bodies and metadata in memory. In the new section they start at multiples of
four, so that their addresses are multiples of four exactly if that of the section is. The address
of the section is a multiple of the alignment that the image states. -/

namespace IlSplice

open Bytes

/-- A power of two is a multiple of all powers of two up to itself. -/
theorem dvd_of_isPowerOfTwo {n k : Nat} (hPower : isPowerOfTwo n) (hLe : 2 ^ k ≤ n) :
    2 ^ k ∣ n := by
  have hPos := Nat.two_pow_pos k
  simp only [isPowerOfTwo, Bool.and_eq_true, decide_eq_true_eq, beq_iff_eq] at hPower
  by_contra hNot
  -- With low bits set, the bits above them are the same in the number and its predecessor.
  have hLow : n % 2 ^ k ≠ 0 := fun hZero => hNot (Nat.dvd_of_mod_eq_zero hZero)
  have hHigh : (n - 1) / 2 ^ k = n / 2 ^ k := by
    rw [Nat.div_eq_iff hPos]
    have := Nat.div_add_mod' n (2 ^ k)
    have := Nat.mod_lt n hPos
    omega
  have hBits : (n &&& (n - 1)) / 2 ^ k = n / 2 ^ k := by
    rw [Nat.and_div_two_pow, hHigh, Nat.and_self]
  rw [hPower.2, Nat.zero_div] at hBits
  have := Nat.div_pos hLe hPos
  omega

namespace Placement

variable {image : Image} {p : Placement}

/-- Sections that are aligned to four bytes or more start at a multiple of four. -/
theorem FoundIn.four_dvd_rva (hPlace : p.FoundIn image)
    (hFour : 4 ≤ image.optional.sectionAlignment.toNat) : 4 ∣ p.rva := by
  have hAlignment : 2 ^ 2 ∣ image.optional.sectionAlignment.toNat :=
    dvd_of_isPowerOfTwo hPlace.memoryAlignment hFour
  rw [hPlace.rva_eq]
  exact Nat.dvd_trans hAlignment (dvd_alignUp _ _)

end Placement

namespace Module

/-- The new addresses of the modified methods and of the metadata are multiples of four exactly if
the address of the new section is. That is so wherever sections are aligned to four bytes or
more. -/
theorem four_dvd_of_toBytes {data out : Bytes} {image : Image} {m : Module}
    (hRead : Image.ofBytes data = .ok image) (hLoaded : m.image = some image)
    (hModified : m.modifiedMethods ≠ []) (hWrite : m.toBytes = .ok out) :
    ∃ md blocks metadata start new, Metadata.locate image = .ok md ∧
      new = Section.ofBytesAt out (Places.of data md.cliOffset).entry.start ∧
      Fills md m.modifiedMethods new out blocks metadata start ∧
      (∀ b ∈ blocks, 4 ∣ (b.redirect new.address.toNat).rva.toNat ↔ 4 ∣ new.address.toNat) ∧
      (4 ∣ md.places.metadataRva.number out ↔ 4 ∣ new.address.toNat) ∧
      new.address.toNat
        = alignUp (Placement.memoryEnd image) image.optional.sectionAlignment.toNat ∧
      (4 ≤ image.optional.sectionAlignment.toNat → 4 ∣ new.address.toNat) := by
  have hFrom := Image.ofBytes_eq_ok.1 hRead
  rw [toBytes_of_ne_nil hLoaded hModified] at hWrite
  obtain ⟨md, p, pool, pool', bodies, redirects, rva, size, metadata, data', hMd, hPlace, hPool,
    hBodies, hMetadata, hRva, hSize, hAppend, hRedirect⟩ := steps_of_replaceBodies hWrite
  obtain ⟨entry, dataSize, memorySize, hAppended⟩ := Placement.append_eq_ok hAppend
  obtain ⟨blocks, hMethods, hEncodes, hRedirects, hAddresses, hLaid, _, _⟩ :=
    laid_of_placeBodies hBodies
  rw [List.reverse_nil, List.nil_append] at hRedirects
  have hFound := Metadata.foundIn_of_locate hMd
  obtain rfl := hFound.image_eq
  obtain rfl := hFrom.data_eq
  have hPlaced := Placement.foundIn_of_of hPlace
  have hWrites := redirectHeader_eq_ok hRedirect
  have hFills := fills_of_laid hFrom hFound hPlaced hAppended hWrites hPool hMethods hEncodes hLaid
    hAddresses (hRedirects ▸ hMetadata) rfl (word_eq_ok hRva) (word_eq_ok hSize)
  have hAddress : (Section.ofBytesAt out md.places.entry.start).address.toNat = p.rva := by
    rw [entry_start hFrom hPlaced]
    exact (entry_written hFrom hFound hPlaced hAppended hWrites).1
  generalize hNew : Section.ofBytesAt out md.places.entry.start = new at hFills hAddress
  refine ⟨md, blocks, metadata, _, new, hMd, hNew.symm, hFills, fun b hMem => ?_, ?_, ?_,
    fun hFour => ?_⟩
  · rw [hFills.redirect_eq b hMem]
    exact Nat.dvd_add_left (hLaid.of_mem hMem).2.1
  · rw [hFills.rva_eq, size_padTo bodies (by decide)]
    exact Nat.dvd_add_left (dvd_alignUp _ _)
  · exact hAddress.trans hPlaced.rva_eq
  · exact hAddress ▸ hPlaced.four_dvd_rva hFour

theorem four_dvd_of_toBytes_selfCall : ∃ (image : Image) (m : Module) (out : Bytes),
    Image.ofBytes selfCall = .ok image ∧ m.image = some image ∧ m.modifiedMethods ≠ [] ∧
      m.toBytes = .ok out ∧ ∃ md blocks metadata start new, Metadata.locate image = .ok md ∧
        new = Section.ofBytesAt out (Places.of selfCall md.cliOffset).entry.start ∧
        Fills md m.modifiedMethods new out blocks metadata start ∧
        (∀ b ∈ blocks, 4 ∣ (b.redirect new.address.toNat).rva.toNat ↔ 4 ∣ new.address.toNat) ∧
        (4 ∣ md.places.metadataRva.number out ↔ 4 ∣ new.address.toNat) ∧
        new.address.toNat
          = alignUp (Placement.memoryEnd image) image.optional.sectionAlignment.toNat ∧
        (4 ≤ image.optional.sectionAlignment.toNat → 4 ∣ new.address.toNat) := by
  obtain ⟨md, m, out, hRead, _, _, hImage, hModified, hWrite, _⟩ := written_selfCall
  exact ⟨md.image, m, out, hRead, hImage, hModified, hWrite,
    four_dvd_of_toBytes hRead hImage hModified hWrite⟩

/-- Patches the module of a file and writes it again. Gives the address of the metadata in the new
file and, by their rows, the addresses of its methods. -/
def newAddresses (config : Patch.Config) (data : Bytes) :
    Except Fault (Nat × List (Nat × Nat)) := do
  let image ← Image.ofBytes data
  let m ← ofImage image
  let md ← Metadata.locate image
  match patch config m with
  | .error fault _ => .error fault
  | .ok _ m' =>
    let out ← m'.toBytes
    let again ← ofBytes out
    return (md.places.metadataRva.number out, again.types.flatMap fun t =>
      t.methods.map fun method => (method.token.row, method.rva.toNat))

/-- A file whose sections are aligned to two bytes, in memory and in the file. -/
def unaligned : Bytes :=
  let file := sampleFile 1 216 384 384 [0x2E, 0x74, 0x65, 0x78, 0x74, 0, 0, 0] [0, 0]
  (file.toList.set 120 2).set 124 2 |>.toArray

/-- Memory ends at an address that the sections need not move away from, and the body stands right
there. -/
theorem newAddresses_unaligned :
    (newAddresses sampleConfig unaligned).toOption = some (622, [(1, 586)]) := by
  unfold newAddresses ofBytes ofImage toBytes replaceBodies literalPool Streams.ofMetadata
    Placement.append Metadata.rebuild Metadata.stream Metadata.stream? Metadata.locate Image.slice
    Bytes.slice
  simp only [resize_eq_toArray, append_eq_toArray, extract_eq_toArray]
  decide +kernel

/-- The new address of a method and that of the metadata are not always multiples of four. -/
theorem not_four_dvd_of_toBytes : ∃ (image : Image) (m : Module) (md : Metadata) (out : Bytes)
    (again : Module), Image.ofBytes unaligned = .ok image ∧ m.image = some image ∧
      m.modifiedMethods ≠ [] ∧ m.toBytes = .ok out ∧ Metadata.locate image = .ok md ∧
      md.places.metadataRva.number out = 622 ∧ ¬ 4 ∣ 622 ∧ ofBytes out = .ok again ∧
      (again.types.flatMap fun t => t.methods.map fun method =>
        (method.token.row, method.rva.toNat)) = [(1, 586)] ∧ ¬ 4 ∣ 586 := by
  obtain ⟨image, hRead, hOk⟩ :=
    Except.bind_eq_ok.1 (Except.toOption_eq_some.1 newAddresses_unaligned)
  obtain ⟨m, hLoad, hOk⟩ := Except.bind_eq_ok.1 hOk
  obtain ⟨md, hMd, hOk⟩ := Except.bind_eq_ok.1 hOk
  split at hOk
  · cases hOk
  rename_i report m' hPatch
  obtain ⟨out, hWrite, hOk⟩ := Except.bind_eq_ok.1 hOk
  obtain ⟨again, hReload, hOk⟩ := Except.bind_eq_ok.1 hOk
  obtain ⟨hMetadata, hMethods⟩ := Prod.mk.inj (Except.ok.inj hOk)
  obtain ⟨_, _, hFrom⟩ := loadedFrom_of_ofImage hLoad
  obtain ⟨hImage, hModified⟩ := modifiedMethods_of_patch hPatch
  exact ⟨image, m', md, out, again, hRead, hImage.trans hFrom.image_eq, hModified, hWrite, hMd,
    hMetadata, by decide, hReload, hMethods, by decide⟩

end Module

end IlSplice
