import IlSplice.Proofs.Patch.Effect
import IlSplice.Proofs.Patch.Faithful

/-! What writing a module does to the bytes of the file that it was loaded from. A few fields are
brought up to date in place, and no other byte changes. -/

namespace IlSplice

open Bytes

/-- The parts of a file that writing brings up to date. -/
structure Places where
  /-- The room behind the section table, for one more entry. -/
  entry : Span
  /-- The number of sections. -/
  sectionCount : Span
  /-- The size of all initialized data. -/
  dataSize : Span
  /-- The size of the image in memory. -/
  imageSize : Span
  /-- The address of the metadata, in the CLI header. -/
  metadataRva : Span
  metadataSize : Span
  flags : Span

namespace Places

/-- The places in a file, whose CLI header is at an offset. -/
def of (data : Bytes) (cli : Nat) : Places :=
  let signature := data.uintAt 0x3C 4
  let optional := signature + 24
  let table := optional + data.uintAt (signature + 20) 2
  { entry := .ofWidth (table + data.uintAt (signature + 6) 2 * 40) 40
    sectionCount := .ofWidth (signature + 6) 2
    dataSize := .ofWidth (optional + 8) 4
    imageSize := .ofWidth (optional + 56) 4
    metadataRva := .ofWidth (cli + 8) 4
    metadataSize := .ofWidth (cli + 12) 4
    flags := .ofWidth (cli + 16) 4 }

/-- The places in the headers of the file. -/
def headers (p : Places) : List Span := [p.entry, p.sectionCount, p.dataSize, p.imageSize]

/-- The places in the CLI header that change. The flags do so only where they say that there is a
strong name signature. -/
def redirected (p : Places) (data : Bytes) : List Span :=
  [p.metadataRva, p.metadataSize] ++ if (p.flags.number data).testBit 3 then [p.flags] else []

/-- The places that change in a file. -/
def touched (p : Places) (data : Bytes) : List Span := p.headers ++ p.redirected data

/-- All places. -/
def all (p : Places) : List Span := p.headers ++ [p.metadataRva, p.metadataSize, p.flags]

/-- Only the flags may be left alone, so that it is enough to ask whether all places lie apart. -/
theorem sublist_touched (p : Places) (data : Bytes) : (p.touched data).Sublist p.all := by
  unfold touched all redirected
  split <;> simp

/-- If all places lie apart, no field of the CLI header lies over the size of the image. -/
theorem redirected_apart_imageSize {p : Places} (hApart : p.all.Pairwise Span.Apart)
    (data : Bytes) : ∀ u ∈ p.redirected data, u.Apart p.imageSize := by
  intro u hMem
  refine ((List.pairwise_append.1 hApart).2.2 p.imageSize (by simp [headers]) u ?_).symm
  unfold redirected at hMem
  split at hMem
  · exact hMem
  · rw [List.append_nil] at hMem
    exact List.mem_append_left [p.flags] hMem

end Places

/-- The places in the file of an image, in which the metadata is found. -/
def Metadata.places (md : Metadata) : Places := .of md.image.data md.cliOffset

/-- A written file, compared with the file from before, whose CLI header is at an offset. -/
structure Framed (data out : Bytes) (cli : Nat) : Prop where
  size_le : data.size ≤ out.size
  entry_free : ∀ i, (Places.of data cli).entry.start ≤ i → i < (Places.of data cli).entry.stop →
    data[i]? = some 0
  kept : ∀ i, i < data.size →
    (∀ s ∈ (Places.of data cli).touched data, ¬ (s.start ≤ i ∧ i < s.stop)) → out[i]? = data[i]?
  sectionCount : ((Places.of data cli).touched data).Pairwise Span.Apart →
    (Places.of data cli).sectionCount.number out
      = (Places.of data cli).sectionCount.number data + 1
  dataSize : ((Places.of data cli).touched data).Pairwise Span.Apart →
    (Places.of data cli).dataSize.number out = (Places.of data cli).dataSize.number data
      + (Section.ofBytesAt out (Places.of data cli).entry.start).rawSize.toNat
  flags : (Places.of data cli).all.Pairwise Span.Apart → ∀ k,
    ((Places.of data cli).flags.number out).testBit k
      = (((Places.of data cli).flags.number data).testBit k && k != 3)

/-- A flag that is set is cleared by a subtraction, and no other bit changes. -/
theorem testBit_sub_flag {n i : Nat} (hFlag : n.testBit i) (k : Nat) :
    (n - 1 <<< i).testBit k = (n.testBit k && k != i) := by
  rw [Nat.testBit_eq_decide_div_mod_eq, decide_eq_true_eq] at hFlag
  have hLow : n % 2 ^ i < 2 ^ i := Nat.mod_lt _ (Nat.two_pow_pos i)
  obtain ⟨high, hHigh⟩ : ∃ high, n / 2 ^ i = 2 * high + 1 := ⟨n / 2 ^ i / 2, by omega⟩
  have hSplit : 2 ^ i * (2 * high + 1) + n % 2 ^ i = n := by rw [← hHigh, Nat.div_add_mod]
  have hCleared : n - 1 <<< i = 2 ^ i * (2 * high) + n % 2 ^ i := by
    rw [Nat.mul_add_one] at hSplit
    rw [Nat.one_shiftLeft]
    omega
  rw [hCleared, Nat.testBit_two_pow_mul_add _ hLow]
  conv => rhs; rw [← hSplit, Nat.testBit_two_pow_mul_add _ hLow]
  rcases Nat.lt_trichotomy k i with hBelow | rfl | hAbove
  · simp [hBelow, Nat.ne_of_lt hBelow]
  · simp
  · have hBits : (2 * high).testBit (k - i) = (2 * high + 1).testBit (k - i) := by
      rw [show k - i = (k - i - 1) + 1 by omega, Nat.testBit_add_one, Nat.testBit_add_one]
      congr 1
      omega
    simp [Nat.not_lt_of_lt hAbove, Nat.ne_of_gt hAbove, hBits]

namespace Placement

variable {image : Image} {p : Placement}

/-- The parts of the headers that a new section changes always lie apart. Its entry cannot be where
the size of the image is, since the size of the headers, which follows, is not zero. -/
theorem apart_spans (hImage : image.ReadFrom image.data) (hPlace : p.FoundIn image)
    (hSome : 0 < image.headers.sections.length) :
    (p.spans image.headers).Pairwise Span.Apart := by
  have hHeader := hPlace.headerOffset_eq
  have hFits := hPlace.slot_le.1
  have hBehind : image.headers.optionalOffset + imageSizeOffset + 4 ≤ p.headerOffset := by
    by_contra hBefore
    have hZero : image.data.uintAt (image.headers.optionalOffset + 60) 4 = 0 := by
      refine uintAt_eq_zero fun i hStart hStop => hPlace.getElem?_slot ?_ ?_
      all_goals
        simp only [Headers.sectionTableOffset, Section.entrySize, imageSizeOffset] at *
        omega
    rw [hImage.optional.sizeOfHeaders_eq, hZero, Section.entrySize] at hFits
    omega
  simp only [spans, List.pairwise_cons, List.forall_mem_cons, Span.Apart, Headers.optionalOffset,
    sectionCountOffset, dataSizeOffset, imageSizeOffset] at *
  simp
  omega

/-- The sum that is read is still that of the file from before. -/
theorem AppendedTo.dataSize_sum {content out : Bytes} {entry : List UInt8}
    {dataSize memorySize : Nat} (h : p.AppendedTo image content entry dataSize memorySize out)
    (hImage : image.ReadFrom image.data) (hPlace : p.FoundIn image)
    (hSome : 0 < image.headers.sections.length) :
    dataSize = image.data.uintAt (image.headers.optionalOffset + dataSizeOffset) 4
      + alignUp content.size image.optional.fileAlignment.toNat := by
  obtain ⟨middle, hWrites, hSum⟩ := h.dataSize_eq
  have hApart := apart_spans hImage hPlace hSome
  rw [← p.span_fields image.headers dataSize memorySize (length_of_entry h.entry_eq)] at hApart
  simp only [fields, List.map_cons, List.pairwise_cons, List.forall_mem_cons] at hApart
  obtain ⟨⟨_, hEntry, _⟩, ⟨hCount, _⟩, _⟩ := hApart
  have hKept := hWrites.agree (s := .ofWidth (image.headers.optionalOffset + dataSizeOffset) 4)
    (by simpa [Field.span, Span.ofWidth] using ⟨hEntry, hCount⟩)
  obtain ⟨hFront, _⟩ := agree_extended hPlace.size_le content
    (pos_of_isPowerOfTwo hPlace.fileAlignment)
  have hInside : image.headers.optionalOffset + dataSizeOffset + 4 ≤ image.data.size := by
    have hSize := hImage.optional.size_ge
    have hFields := OptionalHeader.le_fieldSize image.optional.plus
    unfold dataSizeOffset
    omega
  have hSame : image.data.uintAt (image.headers.optionalOffset + dataSizeOffset) 4
      = middle.uintAt (image.headers.optionalOffset + dataSizeOffset) 4 :=
    ((hFront.mono (Nat.zero_le _) hInside).trans hKept).uintAt
  rw [hSum, hSame]

end Placement

/-- The CLI header is in a section. -/
theorem Metadata.FoundIn.sections_pos {md : Metadata} {image : Image} (hFound : md.FoundIn image) :
    0 < image.headers.sections.length := by
  have hOffset := hFound.cliOffset
  unfold Image.offsetOf at hOffset
  split at hOffset
  · cases hOffset
  · obtain ⟨s, hMem, _⟩ := Image.lt_of_offsetIn hOffset
    exact List.length_pos_of_mem hMem

namespace Module

section Written

variable {md : Metadata} {p : Placement} {content data out : Bytes} {rva size : UInt32}
  {entry : List UInt8} {dataSize memorySize : Nat} (hImage : md.image.ReadFrom md.image.data)
  (hFound : md.FoundIn md.image) (hPlace : p.FoundIn md.image)

include hImage hPlace

/-- The new entry goes where the first free bytes behind the section table are. -/
theorem entry_start : md.places.entry.start = p.headerOffset := by
  have hHeaders := hImage.headers
  rw [hPlace.headerOffset_eq, Headers.sectionTableOffset, Headers.optionalOffset,
    hHeaders.length_eq, hHeaders.optionalSize_eq, hHeaders.signatureOffset_eq]
  rfl

/-- The places are worked out from the bytes of the file, and come out as those of the headers that
were read. -/
theorem headers_places : md.places.headers = p.spans md.image.headers := by
  have hStart := entry_start hImage hPlace
  have hSignature := hImage.headers.signatureOffset_eq
  simp [Places.headers, Placement.spans, ← hStart, hSignature, Headers.optionalOffset,
    Metadata.places, Places.of, Section.entrySize, Placement.sectionCountOffset,
    Placement.dataSizeOffset, Placement.imageSizeOffset, Span.ofWidth]

/-- The places lie apart if the CLI header lies apart from the other headers. -/
theorem apart_all (hApart : (md.updated p).Pairwise Span.Apart) :
    md.places.all.Pairwise Span.Apart := by
  rw [Metadata.updated, List.pairwise_append] at hApart
  obtain ⟨hHeaders, _, hBeside⟩ := hApart
  rw [Places.all, headers_places hImage hPlace, List.pairwise_append]
  refine ⟨hHeaders, by simp [Span.Apart, Span.ofWidth, Metadata.places, Places.of],
    fun u hMem s hField => ?_⟩
  refine (hBeside u hMem _ (List.mem_singleton_self _)).mono ?_ ?_
  all_goals
    simp only [List.mem_cons, List.not_mem_nil, or_false] at hField
    rcases hField with rfl | rfl | rfl
  all_goals simp [Span.ofWidth, Metadata.places, Places.of, CliHeader.byteSize]

omit hImage hPlace in
include hFound in
theorem redirected_places (rva size : UInt32) : (redirectFields md rva size).map Field.span
    = md.places.redirected md.image.data := by
  obtain ⟨_, _, _, hFlags⟩ := hFound.cli_fields
  rw [redirectFields, hFlags, Places.redirected, List.map_append, apply_ite (List.map Field.span)]
  congr 1
  rw [Metadata.places, Places.of, Span.number_ofWidth]
  rfl

include hFound

/-- The places are those of the fields that are written. -/
theorem span_written (rva size : UInt32) (hEntry : entry.length = Section.entrySize) :
    (p.fields md.image.headers entry dataSize memorySize ++ redirectFields md rva size).map
      Field.span = md.places.touched md.image.data := by
  rw [List.map_append, p.span_fields md.image.headers dataSize memorySize hEntry,
    redirected_places hFound rva size, Places.touched, headers_places hImage hPlace]

variable (hAppended : p.AppendedTo md.image content entry dataSize memorySize data)
  (hWrites : Overwrites (p.extended md.image content)
    (p.fields md.image.headers entry dataSize memorySize ++ redirectFields md rva size) out)

include hAppended

/-- Whatever is overwritten is one of the places, which is why nothing else changes. -/
theorem span_mem_touched {f : Field} (hField : f ∈ p.fields md.image.headers entry dataSize
    memorySize ++ redirectFields md rva size) : f.span ∈ md.places.touched md.image.data := by
  rw [← span_written hImage hFound hPlace rva size
    (Placement.length_of_entry hAppended.entry_eq)]
  exact List.mem_map_of_mem hField

include hWrites

/-- Bytes of the old file that are in none of the places are kept. -/
theorem agree_of_apart {s : Span} (hInside : s.stop ≤ md.image.data.size)
    (hApart : ∀ u ∈ md.places.touched md.image.data, u.Apart s) :
    md.image.data.Agree out s.start s.stop := by
  obtain ⟨hFront, _⟩ := Placement.agree_extended hPlace.size_le content
    (Placement.pos_of_isPowerOfTwo hPlace.fileAlignment)
  refine (hFront.mono (Nat.zero_le _) hInside).trans (hWrites.agree fun f hField => ?_)
  exact hApart _ (span_mem_touched hImage hFound hPlace hAppended hField)

/-- Places that lie apart all hold what is written to them. -/
theorem holds_of_apart {f : Field}
    (hApart : (md.places.touched md.image.data).Pairwise Span.Apart)
    (hField : f ∈ p.fields md.image.headers entry dataSize memorySize
      ++ redirectFields md rva size) : out.Holds f.offset f.bytes := by
  rw [← span_written hImage hFound hPlace rva size
    (Placement.length_of_entry hAppended.entry_eq), List.pairwise_map] at hApart
  exact hWrites.holds hApart hField

/-- The field has room for one more, as this is checked before it is written. -/
theorem sectionCount_written (hApart : (md.places.touched md.image.data).Pairwise Span.Apart) :
    md.places.sectionCount.number out = md.places.sectionCount.number md.image.data + 1 := by
  have hCount := holds_of_apart hImage hFound hPlace hAppended hWrites hApart
    (f := ⟨md.image.headers.signatureOffset + Placement.sectionCountOffset,
      leBytes 2 (md.image.headers.sections.length + 1)⟩) (by simp [Placement.fields])
  have hOld := hImage.headers.length_eq
  rw [hImage.headers.signatureOffset_eq] at hCount hOld
  rw [Metadata.places, Places.of, Span.number_ofWidth, Span.number_ofWidth]
  exact (hCount.uintAt_of_lt hAppended.count_lt).trans (congrArg (· + 1) hOld)

/-- The new section counts with the bytes that it takes in the file, filling included. -/
theorem dataSize_written (hApart : (md.places.touched md.image.data).Pairwise Span.Apart) :
    md.places.dataSize.number out = md.places.dataSize.number md.image.data
      + (Section.ofBytesAt out md.places.entry.start).rawSize.toNat := by
  have hEntry := holds_of_apart hImage hFound hPlace hAppended hWrites hApart
    (f := ⟨p.headerOffset, entry⟩) (by simp [Placement.fields])
  have hData := holds_of_apart hImage hFound hPlace hAppended hWrites hApart
    (f := ⟨md.image.headers.optionalOffset + Placement.dataSizeOffset, leBytes 4 dataSize⟩)
    (by simp [Placement.fields])
  have hSum := hAppended.dataSize_sum hImage hPlace hFound.sections_pos
  obtain ⟨_, _, _, hRaw⟩ := Placement.ofBytesAt_of_entry hAppended.entry_eq
    (hEntry.drop (by rw [Placement.length_of_entry hAppended.entry_eq]; decide))
  rw [Headers.optionalOffset, hImage.headers.signatureOffset_eq] at hData hSum
  rw [entry_start hImage hPlace, hRaw, Metadata.places, Places.of, Span.number_ofWidth,
    Span.number_ofWidth]
  exact (hData.uintAt_of_lt hAppended.dataSize_lt).trans hSum

/-- The flag of a strong name signature is cleared, and all other flags are kept. -/
theorem flags_written (hApart : md.places.all.Pairwise Span.Apart) (k : Nat) :
    (md.places.flags.number out).testBit k
      = ((md.places.flags.number md.image.data).testBit k && k != 3) := by
  have hFlags : md.places.flags.number md.image.data = md.cli.flags.toNat := by
    rw [Metadata.places, Places.of, Span.number_ofWidth]
    exact hFound.cli_fields.2.2.2.symm
  rw [hFlags]
  by_cases hSigned : md.cli.flags.toNat.testBit 3
  · have hCleared := holds_of_apart hImage hFound hPlace hAppended hWrites
      (hApart.sublist (Places.sublist_touched _ _))
      (f := ⟨md.cliOffset + CliHeader.flagsOffset, leBytes 4 (md.cli.flags.toNat - 1 <<< 3)⟩)
      (by simp [redirectFields, CliHeader.strongNameSigned, hSigned])
    rw [← testBit_sub_flag hSigned, Metadata.places, Places.of, Span.number_ofWidth]
    congr 1
    exact hCleared.uintAt_of_lt (Nat.lt_of_le_of_lt (Nat.sub_le _ _) md.cli.flags.toNat_lt)
  · change ((md.places.headers ++ [md.places.metadataRva, md.places.metadataSize])
      ++ [md.places.flags]).Pairwise Span.Apart at hApart
    obtain ⟨_, _, hBeside⟩ := List.pairwise_append.1 hApart
    have hKept : md.image.data.Agree out md.places.flags.start md.places.flags.stop := by
      refine agree_of_apart hImage hFound hPlace hAppended hWrites ?_ fun u hMem => ?_
      · have hInside := hFound.cli_le
        simp only [Metadata.places, Places.of, Span.ofWidth, CliHeader.byteSize] at hInside ⊢
        omega
      · rw [Places.touched, Places.redirected, hFlags, if_neg hSigned, List.append_nil] at hMem
        exact hBeside u hMem _ (List.mem_singleton_self _)
    have hSame : md.places.flags.number out = md.cli.flags.toNat := by
      rw [← hFlags, Metadata.places, Places.of, Span.number_ofWidth, Span.number_ofWidth]
      exact hKept.symm.uintAt
    rw [hSame]
    by_cases hBit : k = 3
    · simp [hBit, hSigned]
    · simp [hBit]

/-- All that is said about the bytes of a written file, put together from what is known of each
field. -/
theorem framed_of_writes : Framed md.image.data out md.cliOffset := by
  have hStart := entry_start hImage hPlace
  refine ⟨?_, fun i hFirst hLast => ?_, fun i hi hOutside => ?_,
    sectionCount_written hImage hFound hPlace hAppended hWrites,
    dataSize_written hImage hFound hPlace hAppended hWrites,
    flags_written hImage hFound hPlace hAppended hWrites⟩
  · have := hPlace.size_le
    rw [hWrites.size_eq, Placement.extended, size_resize]
    omega
  · refine hPlace.getElem?_slot (hStart ▸ hFirst) ?_
    rw [← hStart]
    exact hLast
  · refine (agree_of_apart hImage hFound hPlace hAppended hWrites (s := ⟨i, i + 1⟩) hi
      (fun u hMem => ?_) i (Nat.le_refl i) (Nat.lt_succ_self i)).symm
    have hNot := hOutside u hMem
    change u.stop ≤ i ∨ i + 1 ≤ u.start
    omega

end Written

/-- Writing a module without modified methods gives the file that it was loaded from. Otherwise only
a few fields of this file change, and all new bytes are behind it. -/
theorem frame_of_toBytes {data out : Bytes} {image : Image} {m : Module}
    (hRead : Image.ofBytes data = .ok image) (hLoaded : m.image = some image)
    (hWrite : m.toBytes = .ok out) :
    (m.modifiedMethods = [] → out = data) ∧
      (m.modifiedMethods ≠ [] → ∃ cli, image.offsetOf image.cli.rva.toNat = .ok cli ∧
        Framed data out cli) := by
  have hFrom := Image.ofBytes_eq_ok.1 hRead
  constructor
  · intro hNone
    rw [toBytes, hLoaded, hNone] at hWrite
    exact (Except.ok.inj hWrite).symm.trans hFrom.data_eq
  · intro hSome
    rw [toBytes_of_ne_nil hLoaded hSome] at hWrite
    obtain ⟨md, p, _, _, _, _, rva, size, _, _, hMd, hPlace, _, _, _, _, _, hAppend, hRedirect⟩ :=
      steps_of_replaceBodies hWrite
    obtain ⟨entry, dataSize, memorySize, hAppended⟩ := Placement.append_eq_ok hAppend
    have hFound := Metadata.foundIn_of_locate hMd
    obtain rfl := hFound.image_eq
    obtain rfl := hFrom.data_eq
    exact ⟨md.cliOffset, hFound.cliOffset, framed_of_writes hFrom hFound
      (Placement.foundIn_of_of hPlace) hAppended
      (hAppended.writes.append (redirectHeader_eq_ok hRedirect))⟩

/-- The sample file is read, patched and written, and the parts that change lie apart in it. -/
theorem written_selfCall : ∃ (md : Metadata) (m : Module) (out : Bytes),
    Image.ofBytes selfCall = .ok md.image ∧ md.image.data = selfCall ∧
      Metadata.locate md.image = .ok md ∧ m.image = some md.image ∧ m.modifiedMethods ≠ [] ∧
      m.toBytes = .ok out ∧ md.places.all.Pairwise Span.Apart := by
  obtain ⟨out, m, m', _, _, md, p, _, hReloads, _⟩ := reloads_of_trial trial_selfCall
  obtain ⟨image, hRead, hOfImage⟩ := Except.bind_eq_ok.1 hReloads.load
  obtain ⟨_, _, hFrom⟩ := loadedFrom_of_ofImage hOfImage
  obtain ⟨hImage, hModified⟩ := modifiedMethods_of_patch hReloads.patch
  obtain rfl := Option.some.inj (hFrom.image_eq.symm.trans hReloads.image)
  have hReadFrom := Image.ofBytes_eq_ok.1 hRead
  have hData := hReadFrom.data_eq
  rw [← hData] at hReadFrom
  exact ⟨md, m', out, hRead, hData, hReloads.metadata, hImage.trans hFrom.image_eq, hModified,
    hReloads.write,
    apart_all hReadFrom (Placement.foundIn_of_of hReloads.placement) hReloads.apart⟩

theorem frame_of_toBytes_selfCall : ∃ (image : Image) (m : Module) (out : Bytes),
    Image.ofBytes selfCall = .ok image ∧ m.image = some image ∧ m.modifiedMethods ≠ [] ∧
      m.toBytes = .ok out ∧ (∃ cli, image.offsetOf image.cli.rva.toNat = .ok cli ∧
        Framed selfCall out cli) ∧
      ∀ cli, image.offsetOf image.cli.rva.toNat = .ok cli →
        (Places.of selfCall cli).all.Pairwise Span.Apart := by
  obtain ⟨md, m, out, hRead, hData, hMd, hImage, hModified, hWrite, hApart⟩ := written_selfCall
  refine ⟨md.image, m, out, hRead, hImage, hModified, hWrite,
    (frame_of_toBytes hRead hImage hWrite).2 hModified, fun cli hCli => ?_⟩
  have hOffset := (Metadata.foundIn_of_locate hMd).cliOffset
  rw [hCli] at hOffset
  obtain rfl := Except.ok.inj hOffset
  rw [← hData]
  exact hApart

end Module

end IlSplice
