import IlSplice.Proofs.Module.Container
import IlSplice.Proofs.Patch.Faithful

/-! Which of the files that are written can be loaded. The directory of streams may have grown by
the stream of literals, and no more than six streams are taken when it is loaded. Besides that, the
sizes of the metadata and of the new section matter, and whether the container is accepted, for
which the version text has to be UTF-8 after it was written again. -/

namespace IlSplice

open Bytes

/-- The metadata of a module that was loaded is read again, once it was rebuilt, exactly if it lists
at most six streams. -/
theorem Metadata.readable_rebuild_iff {image : Image} {md : Metadata} {s : Streams}
    {pool : LiteralPool} {redirects : List Redirect} {block : Bytes}
    (hLocate : locate image = .ok md) (hStreams : Streams.ofMetadata md = .ok s)
    (hRebuild : md.rebuild pool redirects = .ok block) (hSize : block.size < byteRange 4) :
    (∃ root, Root.ofBytes block = .ok root) ↔
      md.root.streams.length + (if (md.root.stream? Literals.streamName).isNone ∧ 0 < pool.added
        then 1 else 0) ≤ 6 := by
  have hFound := foundIn_of_locate hLocate
  have hNames := (Root.known_of_readStreams hFound.readFrom.streams_eq).2
  obtain ⟨⟨tables, hTables, _⟩, hIdentifiers, _⟩ := Streams.ofMetadata_eq_ok hStreams
  -- The tables and the names are two different streams.
  have hTwo : 2 ≤ md.root.streams.length := by
    rw [hFound.stream?_eq, Except.ok.injEq, Option.map_eq_some_iff] at hTables hIdentifiers
    obtain ⟨first, hFirst, _⟩ := hTables
    obtain ⟨second, hSecond, _⟩ := hIdentifiers
    obtain ⟨i, hi⟩ := List.getElem?_of_mem (List.mem_of_find?_eq_some hFirst)
    obtain ⟨j, hj⟩ := List.getElem?_of_mem (List.mem_of_find?_eq_some hSecond)
    have hApart : i ≠ j := by
      rintro rfl
      rw [hi] at hj
      cases hj
      have hName := List.find?_some hFirst
      have hName' := List.find?_some hSecond
      rw [beq_iff_eq] at hName hName'
      rw [hName] at hName'
      exact absurd hName' (by decide)
    have := (List.getElem?_eq_some_iff.1 hi).1
    have := (List.getElem?_eq_some_iff.1 hj).1
    omega
  rw [exists_ofBytes_rebuild_iff (fun e hMem => (hNames e hMem).1) hFound.versionSize_lt
    (Root.signature_of_ofBytes hFound.root) hTwo hRebuild hSize]
  unfold withLiterals
  split
  · rw [List.length_append]
    rfl
  · rfl

namespace Module

open Patch

/-- A file that was patched and written is loaded exactly if its container is accepted, its
directory has room for the stream of literals that an entry may need, its metadata is not too large,
and the new section ends within 32 bits. In a file that is laid out as usual, the container is
accepted exactly if the version text, which is read byte by byte and written as UTF-8, is not cut
off inside a character. -/
theorem loads_written_iff {config : Config} {data out : Bytes} {m m' : Module} {report : Report}
    {md : Metadata} {p : Placement} {pool : LiteralPool}
    (h : Writes config data out m m' report md p pool) :
    ((∃ again, ofBytes out = .ok again) ↔
      Acceptable md p out ∧
      md.root.streams.length + (if (md.root.stream? Literals.streamName).isNone ∧
        config.entries ≠ [] then 1 else 0) ≤ 6 ∧
      out.uintAt (md.cliOffset + CliHeader.metadataSizeOffset) 4 ≤ 0x10000000 ∧
      (Section.ofBytesAt out p.headerOffset).stop < 0x100000000) ∧
    (Ordinary md p → (Acceptable md p out ↔
      (Bytes.utf8? (resize (ofUtf8 md.root.version) md.root.versionSize)).isSome)) := by
  obtain ⟨target, anchors, position, s, r, pool', code, block, rva, size, _, _, _, _, hNew, hAdded,
    hReadBack⟩ := h.steps
  have hBody : ∀ resolver : Resolver, s.resolver.Extends resolver →
      (∀ t text, t.table = Token.literalTable → (Text.units text, t.row) ∈ pool'.known →
        resolver.literal t = .ok text) →
      ∃ b stop, MethodBody.scan resolver out p.offset = .ok b stop := by
    intro resolver hExtends hLiterals
    obtain ⟨b, stop, hScan, _⟩ := hReadBack resolver hExtends hLiterals
    exact ⟨b, stop, hScan⟩
  have hNeeded : (md.root.stream? Literals.streamName).isNone ∧ 0 < pool'.added ↔
      (md.root.stream? Literals.streamName).isNone ∧ config.entries ≠ [] :=
    and_congr_right fun hNone => hAdded (Option.isNone_iff_eq_none.1 hNone)
  refine ⟨?_, hNew.acceptable_iff⟩
  rw [hNew.exists_ofBytes_iff hBody, hNew.rewritten.exists_image_iff hNew.readFrom hNew.placed
    hNew.clear, Metadata.readable_rebuild_iff h.metadata hNew.loaded.streams hNew.rebuild
    (hNew.size_eq ▸ size.toNat_lt), hNew.rewritten.size_eq]
  simp only [hNeeded]
  rfl

/-- The version text `vé.` in a field of four bytes is read as one of four characters. It takes
six bytes now, and the fourth is the first half of a character. -/
example : (ofUtf8 "vé.").toList = [0x76, 0xC3, 0xA9, 0x2E] ∧
    Bytes.utf8? (resize (ofUtf8 (latin1 [0x76, 0xC3, 0xA9, 0x2E])) 4) = none := by
  decide +kernel

/-- Patches the module of a file and writes it again, and tells why what was written is not loaded.
Also tests whether everything that was brought up to date lies apart. -/
def refusal (config : Config) (data : Bytes) : Except Fault (Fault × Bool) := do
  let image ← Image.ofBytes data
  let m ← ofImage image
  let md ← Metadata.locate image
  let p ← Placement.of image
  let pool ← literalPool md
  match patch config m with
  | .error fault _ => .error fault
  | .ok _ m' =>
    let out ← m'.toBytes
    match ofBytes out with
    | .ok _ => .error .unsupported
    | .error fault => return (fault, decide ((md.updated p).Pairwise Span.Apart)
        && decide (∀ u ∈ md.updated p, ∀ g ∈ md.image.guides, u.Apart g) && m.standsBehind md p
        && decide (∀ entry ∈ config.entries, pool.Reaches entry) && decide (Ordinary md p)
        && (Bytes.utf8? (resize (ofUtf8 md.root.version) md.root.versionSize)).isSome)

/-- What took place before a file was refused. -/
theorem writes_of_refusal {config : Config} {data : Bytes} {fault : Fault}
    (hRefusal : (refusal config data).toOption = some (fault, true)) :
    ∃ out m m' report md p pool, Writes config data out m m' report md p pool ∧ Ordinary md p ∧
      (Bytes.utf8? (resize (ofUtf8 md.root.version) md.root.versionSize)).isSome ∧
      ofBytes out = .error fault := by
  obtain ⟨image, hRead, hOk⟩ := Except.bind_eq_ok.1 (Except.toOption_eq_some.1 hRefusal)
  obtain ⟨m, hLoad, hOk⟩ := Except.bind_eq_ok.1 hOk
  obtain ⟨md, hMd, hOk⟩ := Except.bind_eq_ok.1 hOk
  obtain ⟨p, hPlace, hOk⟩ := Except.bind_eq_ok.1 hOk
  obtain ⟨pool, hPool, hOk⟩ := Except.bind_eq_ok.1 hOk
  split at hOk
  · cases hOk
  rename_i report m' hPatch
  obtain ⟨out, hWrite, hOk⟩ := Except.bind_eq_ok.1 hOk
  split at hOk
  · cases hOk
  rename_i reason hReload
  obtain ⟨rfl, hTests⟩ := Prod.mk.inj (Except.ok.inj hOk)
  simp only [Bool.and_eq_true, decide_eq_true_eq] at hTests
  obtain ⟨⟨⟨⟨⟨hApart, hGuides⟩, hBehind⟩, hReaches⟩, hOrdinary⟩, hText⟩ := hTests
  obtain ⟨_, _, hFrom⟩ := loadedFrom_of_ofImage hLoad
  obtain rfl := (Metadata.foundIn_of_locate hMd).image_eq
  exact ⟨out, m, m', report, md, p, pool, ⟨Except.bind_eq_ok.2 ⟨_, hRead, hLoad⟩, hFrom.image_eq,
    hMd, hPlace, hPool, ⟨hApart, hGuides⟩, apart_of_standsBehind hBehind, hReaches, hPatch, hWrite⟩,
    hOrdinary, hText, hReload⟩

/-- The metadata of a type `A` with one method `A`, with four more streams, which are empty. -/
def crowdedMetadata (rva : Nat) : List UInt8 :=
  let guid := leBytes 4 184 ++ leBytes 4 0 ++ [0x23, 0x47, 0x55, 0x49, 0x44, 0, 0, 0]
  let blob := leBytes 4 184 ++ leBytes 4 0 ++ [0x23, 0x42, 0x6C, 0x6F, 0x62, 0, 0, 0]
  [leBytes 4 Root.magic, leBytes 2 1, leBytes 2 1, leBytes 4 0, leBytes 4 4, [0x76, 0, 0, 0],
    leBytes 2 0, leBytes 2 6, leBytes 4 120, leBytes 4 60, [0x23, 0x7E, 0, 0], leBytes 4 180,
    leBytes 4 4, [0x23, 0x53, 0x74, 0x72, 0x69, 0x6E, 0x67, 0x73, 0, 0, 0, 0],
    guid, blob, guid, blob, (sampleMetadata rva).drop 56].flatten

/-- A file whose directory has no room for another stream. The CLI header is that of the other
samples, up to the size of the metadata. -/
def crowded : Bytes :=
  let size := leBytes 4 264
  [sampleHeaders 1 216 384 384, [0x2E, 0x74, 0x65, 0x78, 0x74, 0, 0, 0], size, leBytes 4 384, size,
    leBytes 4 384, .replicate 56 0, (sampleCode 464).set 12 184,
    crowdedMetadata 456].flatten.toArray

/-- Six streams are as many as are accepted, and the literals would be a seventh one. -/
theorem refusal_crowded :
    (refusal sampleConfig crowded).toOption = some (.streamCount 7, true) := by
  unfold refusal ofBytes ofImage toBytes replaceBodies literalPool Streams.ofMetadata
    Placement.append Metadata.rebuild Metadata.stream Metadata.stream? Metadata.locate Image.slice
    Bytes.slice
  simp only [resize_eq_toArray, append_eq_toArray, extract_eq_toArray]
  decide +kernel

/-- One of the two samples has room for the stream of literals, and is loaded. The other one is
accepted as well, but has no room and is not loaded. -/
theorem loads_written_iff_samples :
    (∃ out m m' report md p pool, Writes sampleConfig selfCall out m m' report md p pool ∧
      Acceptable md p out ∧
      md.root.streams.length + (if (md.root.stream? Literals.streamName).isNone ∧
        sampleConfig.entries ≠ [] then 1 else 0) ≤ 6) ∧
    ∃ out m m' report md p pool, Writes sampleConfig crowded out m m' report md p pool ∧
      Ordinary md p ∧ Acceptable md p out ∧
      ¬ (md.root.streams.length + (if (md.root.stream? Literals.streamName).isNone ∧
          sampleConfig.entries ≠ [] then 1 else 0) ≤ 6 ∧
        out.uintAt (md.cliOffset + CliHeader.metadataSizeOffset) 4 ≤ 0x10000000 ∧
        (Section.ofBytesAt out p.headerOffset).stop < 0x100000000) := by
  constructor
  · obtain ⟨out, m, m', again, report, md, p, pool, hReloads, _, hTests⟩ :=
      reloads_of_trial trial_selfCall
    rw [Bool.and_eq_true, decide_eq_true_eq, decide_eq_true_eq] at hTests
    have hWrites := hReloads.writes hTests.1 hTests.2
    obtain ⟨hAcceptable, hFew, _⟩ := (loads_written_iff hWrites).1.1 ⟨again, hReloads.reload⟩
    exact ⟨out, m, m', report, md, p, pool, hWrites, hAcceptable, hFew⟩
  · obtain ⟨out, m, m', report, md, p, pool, hWrites, hOrdinary, hText, hRefused⟩ :=
      writes_of_refusal refusal_crowded
    have hAcceptable := ((loads_written_iff hWrites).2 hOrdinary).2 hText
    refine ⟨out, m, m', report, md, p, pool, hWrites, hOrdinary, hAcceptable, fun hBounds => ?_⟩
    obtain ⟨again, hAgain⟩ := (loads_written_iff hWrites).1.2 ⟨hAcceptable, hBounds⟩
    rw [hRefused] at hAgain
    cases hAgain

/-- A file that is loaded, patched and written is not always loaded again. -/
theorem not_loaded_of_written : ¬ ∀ (config : Patch.Config) (data : Bytes) (m m' : Module)
    (report : Patch.Report) (out : Bytes), ofBytes data = .ok m →
      patch config m = .ok report m' → m'.toBytes = .ok out →
        ∃ again, ofBytes out = .ok again := by
  intro hLoaded
  obtain ⟨out, m, m', report, _, _, _, hWrites, _, _, hRefused⟩ :=
    writes_of_refusal refusal_crowded
  obtain ⟨again, hAgain⟩ := hLoaded _ _ m m' report out hWrites.load hWrites.patch hWrites.write
  rw [hRefused] at hAgain
  cases hAgain

end Module

end IlSplice
