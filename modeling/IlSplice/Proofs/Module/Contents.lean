import IlSplice.Proofs.Heap.Requests
import IlSplice.Proofs.Patch.Faithful

/-! The streams of rebuilt metadata. All of them are listed again, in the same order and one behind
the other, and each has the contents from before with a filling behind them. -/

namespace IlSplice

open Bytes

theorem alignUp_alignUp (n alignment : Nat) (h : 0 < alignment) :
    alignUp (alignUp n alignment) alignment = alignUp n alignment :=
  alignUp_of_dvd h (dvd_alignUp n alignment)

namespace Bytes

variable {data : Bytes}

/-- Data is filled up with fewer than four zeros. -/
theorem exists_padTo_eq (data : Bytes) :
    ∃ zeros < 4, data.padTo 4 = data ++ Array.replicate zeros 0 :=
  ⟨alignUp data.size 4 - data.size, by unfold alignUp; omega, rfl⟩

/-- What was filled up stays as it is. -/
theorem padTo_padTo (data : Bytes) {alignment : Nat} (h : 0 < alignment) :
    (data.padTo alignment).padTo alignment = data.padTo alignment := by
  generalize hPadded : data.padTo alignment = padded
  have hSize : alignUp padded.size alignment = padded.size := by
    rw [← hPadded, size_padTo data h, alignUp_alignUp _ _ h]
  rw [padTo, hSize, Nat.sub_self, Array.replicate_zero, Array.append_empty]

end Bytes

namespace Root

variable {r : Root}

/-- The directory ends at a multiple of four, where the first stream starts. -/
theorem dvd_byteSize (r : Root) : 4 ∣ r.byteSize := by
  have hEntries : ∀ entries : List StreamEntry,
      4 ∣ entries.foldr (fun entry size => entry.byteSize + size) 0 := by
    intro entries
    induction entries with
    | nil => exact Nat.dvd_zero 4
    | cons e rest ih =>
        refine Nat.dvd_add (Nat.dvd_add (by decide) (dvd_alignUp _ _)) ih
  exact Nat.dvd_add (Nat.dvd_add (Nat.dvd_add (by decide) (dvd_alignUp _ _)) (by decide))
    (hEntries r.streams)

/-- A directory takes at most forty bytes for each stream. -/
theorem byteSize_le (hNames : ∀ e ∈ r.streams, e.name ∈ StreamEntry.knownNames) :
    r.byteSize ≤ 20 + r.versionSize + 40 * r.streams.length := by
  have hEntry : ∀ e ∈ r.streams, e.byteSize ≤ 40 := by
    intro e hMem
    have hShort : e.name.utf8ByteSize < 32 :=
      (StreamEntry.readable_of_mem_knownNames _ (hNames e hMem)).2.2
    unfold StreamEntry.byteSize StreamEntry.nameSize alignUp
    omega
  have hFold : ∀ entries : List StreamEntry, (∀ e ∈ entries, e.byteSize ≤ 40) →
      entries.foldr (fun entry size => entry.byteSize + size) 0 ≤ 40 * entries.length := by
    intro entries hEach
    induction entries with
    | nil => exact Nat.le_refl _
    | cons e rest ih =>
        rw [List.forall_mem_cons] at hEach
        have hFirst := hEach.1
        have hRest := ih hEach.2
        rw [List.foldr_cons, List.length_cons]
        omega
  have hEntries := hFold r.streams hEntry
  unfold byteSize
  omega

/-- The size of a root does not change when its version field is rounded up. -/
theorem byteSize_of_rounded (version : String) (h : r.versionSize < byteRange 4) :
    byteSize { r with length := UInt32.ofNat r.versionSize, version := version } = r.byteSize := by
  have hSame : (UInt32.ofNat r.versionSize).toNat = r.versionSize := by
    rw [UInt32.toNat_ofNat']
    exact Nat.mod_eq_of_lt h
  unfold byteSize versionSize at *
  dsimp only
  rw [hSame, alignUp_alignUp _ _ (by decide)]

end Root

namespace Metadata

variable {image : Image} {md : Metadata} {pool : LiteralPool} {redirects : List Redirect}
  {block : Bytes}

/-- A stream is part of the metadata, and so no larger than that may be. -/
theorem FoundIn.stream_le (hFound : md.FoundIn image) {name : String} {data : Bytes}
    (hStream : md.stream? name = .ok (some data)) :
    data.size ≤ CliHeader.maxMetadataSize := by
  rw [hFound.stream?_eq, Except.ok.injEq, Option.map_eq_some_iff] at hStream
  obtain ⟨entry, _, rfl⟩ := hStream
  have hMax := hFound.cli.size_le_max
  rw [Array.size_extract, hFound.size_block]
  omega

theorem FoundIn.size_literalPool_le (hFound : md.FoundIn image)
    (hPool : Module.literalPool md = .ok pool) : pool.data.size ≤ CliHeader.maxMetadataSize := by
  obtain ⟨found, hData, hPool⟩ := Except.bind_eq_ok.1 hPool
  rw [(LiteralPool.sound_of_ofBytes hPool).1]
  cases found with
  | none => decide
  | some data => exact hFound.stream_le hData

/-- Metadata that was rebuilt with literals that were added to those of the image is small enough
for its offsets. -/
theorem size_lt_of_rebuild (hFound : md.FoundIn image) {start : LiteralPool} {texts : List String}
    (hStart : Module.literalPool md = .ok start) (hPool : pool = (start.requestAll texts).2)
    (hRebuild : md.rebuild pool redirects = .ok block)
    (hFew : (withLiterals md.root pool).streams.length ≤ Root.maxStreams) :
    block.size < byteRange 4 := by
  have hNames := hFound.names_known
  obtain ⟨hNames', hVersion⟩ := names_withLiterals hNames pool
  obtain ⟨source, s, tables, streams, head, hSource, _, hTables, _, _, _, hDirectory⟩ :=
    directory_of_rebuild hNames hRebuild
  obtain ⟨contents, hContents, hSizes⟩ := hDirectory.sizes
  have hMax : CliHeader.maxMetadataSize = 0x10000000 := rfl
  have hGrown := LiteralPool.size_requestAll_le start texts
  have hTablesSize : tables.size ≤ CliHeader.maxMetadataSize := by
    rw [(TableStream.redirect_eq_ok hTables).1.size_eq]
    exact hFound.stream_le (stream_eq_ok.1 hSource)
  have hLiterals : pool.finish.size ≤ 0x21000004 := by
    have hBound : LiteralPool.maxSize = 0x21000002 := rfl
    have hBefore := hFound.size_literalPool_le hStart
    have hAfter : pool.data.size ≤ 0x21000002 := by
      rw [hPool]
      omega
    rw [LiteralPool.finish, size_padTo _ (by decide), alignUp]
    omega
  have hEach := size_le_of_payloads (Nat.le_trans hTablesSize (by omega)) hLiterals
    (fun name data hData => Nat.le_trans (hFound.stream_le hData) (by omega)) hContents
  have hStop := hDirectory.consecutive.stop_le 0x21000004 fun e hMem => by
    obtain ⟨content, hContent, hSize⟩ := hSizes e hMem
    have hLess := hEach content hContent
    rw [hSize, alignUp]
    omega
  have hHead := Root.byteSize_le hNames'
  have hField := hFound.versionSize_le
  have hLength := hDirectory.length_eq
  rw [show byteRange 4 = 0x100000000 from rfl]
  unfold Root.maxStreams at hFew
  omega

/-- A stream of literals is added behind the others, if there is none and a literal was added. -/
theorem names_withLiterals_eq (root : Root) (pool : LiteralPool) :
    (withLiterals root pool).streams.map (·.name) = root.streams.map (·.name)
      ++ if (root.stream? Literals.streamName).isNone ∧ 0 < pool.added
        then [Literals.streamName] else [] := by
  unfold withLiterals
  split
  · exact List.map_append
  · exact (List.append_nil _).symm

/-- The contents of a stream are those from before, but for the tables and the literals. -/
theorem Directory.kept {tables : Bytes} {streams : List StreamEntry}
    (hDirectory : md.Directory pool tables block streams) (hFound : md.FoundIn image)
    {name : String} {entry : StreamEntry}
    (hFind : streams.find? (·.name == name) = some entry) :
    ∃ content, ∃ zeros < 4,
      block.extract entry.offset.toNat (entry.offset.toNat + entry.size.toNat)
        = content ++ Array.replicate zeros 0 ∧
      if name = TableStream.streamName then content = tables
      else if name = Literals.streamName then content = pool.data
      else md.stream? name = .ok (some content) := by
  obtain ⟨content, hPayload, hSize, hHolds⟩ := hDirectory.content name entry hFind
  have hExtract := hHolds.extract
  rw [Array.length_toList, ← hSize, Array.toArray_toList] at hExtract
  unfold Payload at hPayload
  split at hPayload
  · rename_i hTables
    obtain ⟨zeros, hFew, hPadded⟩ := exists_padTo_eq content
    exact ⟨content, zeros, hFew, hExtract.trans hPadded, by rw [if_pos hTables]; exact hPayload⟩
  rename_i hTables
  split at hPayload
  · rename_i hLiterals
    obtain ⟨zeros, hFew, hPadded⟩ := exists_padTo_eq pool.data
    refine ⟨pool.data, zeros, hFew, ?_, by rw [if_neg hTables, if_pos hLiterals]⟩
    rw [hExtract, hPayload, LiteralPool.finish, padTo_padTo _ (by decide), hPadded]
  · rename_i hLiterals
    obtain ⟨data, hData, rfl⟩ := hPayload
    -- Only the stream of literals may be new, so this one was listed before.
    have hListed : (md.root.stream? name).isSome := by
      have hSame := isSome_find?_name hDirectory.names_eq name
      rw [hFind, Option.isSome_some] at hSame
      unfold withLiterals at hSame
      split at hSame
      · simpa [Root.stream?, List.find?_append, Ne.symm hLiterals] using hSame.symm
      · exact hSame.symm
    obtain ⟨before, hBefore⟩ := Option.isSome_iff_exists.1 hListed
    rw [hFound.stream?_eq, hBefore, Option.map_some, Except.ok.injEq] at hData
    subst hData
    obtain ⟨zeros, hFew, hPadded⟩ := exists_padTo_eq (md.block.extract before.offset.toNat
      (before.offset.toNat + before.size.toNat))
    refine ⟨_, zeros, hFew, hExtract.trans hPadded, ?_⟩
    rw [if_neg hTables, if_neg hLiterals, hFound.stream?_eq, hBefore, Option.map_some]

/-- The streams that rebuilt metadata lists. They are those from before in the same order, and
possibly one of literals behind them. They stand one behind the other from the end of the directory
to the end of the metadata. Each has its contents from before, apart from the new addresses and the
new literals, and fewer than four zeros behind them. -/
structure Relists (md : Metadata) (pool : LiteralPool) (redirects : List Redirect) (block : Bytes)
    (root : Root) : Prop where
  names_eq : root.streams.map (·.name) = md.root.streams.map (·.name)
    ++ (if (md.root.stream? Literals.streamName).isNone ∧ 0 < pool.added
      then [Literals.streamName] else [])
  aligned : ∀ e ∈ root.streams, 4 ∣ e.offset.toNat
  consecutive : StreamEntry.Consecutive root.byteSize root.streams block.size
  contents : ∃ source s tables, md.stream? TableStream.streamName = .ok (some source) ∧
    TableStream.ofBytes source = .ok s ∧ s.redirect source redirects = .ok tables ∧
    ∀ name entry, root.stream? name = some entry → ∃ content, ∃ zeros < 4,
      block.extract entry.offset.toNat (entry.offset.toNat + entry.size.toNat)
        = content ++ Array.replicate zeros 0 ∧
      if name = TableStream.streamName then content = tables
      else if name = Literals.streamName then content = pool.data
      else md.stream? name = .ok (some content)

/-- Rebuilt metadata is read if it lists at most six streams and is smaller than four gigabytes. -/
theorem relists_of_rebuild (hFound : md.FoundIn image)
    (hRebuild : md.rebuild pool redirects = .ok block)
    (hFew : (withLiterals md.root pool).streams.length ≤ 6) (hSize : block.size < byteRange 4) :
    ∃ root, Root.ofBytes block = .ok root ∧ md.Relists pool redirects block root := by
  have hNames := hFound.names_known
  obtain ⟨source, s, tables, root, hSource, hTables, hRedirect, hRoot, hFields, hSignature,
    hEntries, hDirectory⟩ := fields_of_rebuild hNames hFound.versionSize_lt
      (Root.signature_of_ofBytes hFound.root) hRebuild hSize
  have hSome : root.streams ≠ [] := by
    obtain ⟨entry, hFind, _⟩ := hDirectory.tables_at hSource
    exact List.ne_nil_of_mem (List.mem_of_find?_eq_some hFind)
  have hVersion : root.versionSize < byteRange 4 := by
    rw [← hRoot]
    exact (names_withLiterals hNames pool).2 ▸ hFound.versionSize_lt
  have hHead : root.byteSize = (withLiterals md.root pool).byteSize := by
    conv_lhs => rw [← hRoot]
    exact byteSize_of_names hDirectory.names_eq
  have hStart := hDirectory.consecutive
  rw [← hHead] at hStart
  have hSizes : ∀ e ∈ root.streams, 4 ∣ e.size.toNat := by
    obtain ⟨_, _, hSizes⟩ := hDirectory.sizes
    intro e hMem
    obtain ⟨content, _, hSize⟩ := hSizes e hMem
    exact hSize ▸ dvd_alignUp _ _
  refine ⟨_, hFields.ofBytes_eq hSignature (minimum_of_rebuild hNames hRebuild) hSome
    (hDirectory.length_eq ▸ hFew) hEntries, ?_, ?_, ?_, source, s, tables, stream_eq_ok.1 hSource,
    hTables, hRedirect, fun name entry hFind => hDirectory.kept hFound hFind⟩
  · exact hDirectory.names_eq.trans (names_withLiterals_eq _ _)
  · exact hStart.aligned root.dvd_byteSize hSizes
  · rw [Root.byteSize_of_rounded _ hVersion]
    exact hStart

/-- Rebuilt metadata that lists at most six streams is read again exactly if it is smaller than four
gigabytes, and lists the streams from before. It always is that small if the literals were added to
those of the image, whatever texts these are. -/
theorem ofBytes_rebuild (hLocate : locate image = .ok md)
    (hRebuild : md.rebuild pool redirects = .ok block)
    (hFew : (withLiterals md.root pool).streams.length ≤ 6) :
    ((∃ root, Root.ofBytes block = .ok root) ↔ block.size < 0x100000000) ∧
    ((∃ start texts, Module.literalPool md = .ok start ∧ pool = (start.requestAll texts).2) →
      block.size < 0x100000000) ∧
    ∀ root, Root.ofBytes block = .ok root → md.Relists pool redirects block root := by
  have hFound := foundIn_of_locate hLocate
  have hSmall : ∀ root, Root.ofBytes block = .ok root → block.size < byteRange 4 := fun _ hRead =>
    size_lt_of_ofBytes hFound.names_known hFound.versionSize_lt hRebuild hRead
  refine ⟨⟨fun ⟨root, hRead⟩ => hSmall root hRead, fun hSize => ?_⟩,
    fun ⟨start, texts, hStart, hPool⟩ => size_lt_of_rebuild hFound hStart hPool hRebuild hFew,
    fun root hRead => ?_⟩
  · obtain ⟨root, hRead, _⟩ := relists_of_rebuild hFound hRebuild hFew hSize
    exact ⟨root, hRead⟩
  · obtain ⟨root', hAgain, hRelists⟩ :=
      relists_of_rebuild hFound hRebuild hFew (hSmall root hRead)
    rw [hRead] at hAgain
    cases hAgain
    exact hRelists

/-- Rebuilds the metadata of a file with more literals. Tells which streams there were, how many are
listed now, and whether a stream of literals was added. -/
def relisted (data : Bytes) (texts : List String) (redirects : List Redirect) :
    Except Fault (List String × Nat × Bool) := do
  let image ← Image.ofBytes data
  let md ← locate image
  let start ← Module.literalPool md
  let pool := (start.requestAll texts).2
  let _ ← md.rebuild pool redirects
  return (md.root.streams.map (·.name), (withLiterals md.root pool).streams.length,
    decide ((md.root.stream? Literals.streamName).isNone ∧ 0 < pool.added))

/-- There was no stream of literals before. The text is asked for twice and added once. -/
theorem relisted_selfCall : (relisted Module.selfCall ["A", "A"] [⟨1, 5⟩]).toOption
    = some (["#~", "#Strings"], 3, true) := by
  unfold relisted Module.literalPool rebuild stream stream? locate Image.slice Bytes.slice
  simp only [append_eq_toArray, extract_eq_toArray]
  decide +kernel

/-- The three streams follow each other without gaps in the metadata that is read again. -/
theorem ofBytes_rebuild_selfCall : ∃ md start block root, locate md.image = .ok md ∧
    Module.literalPool md = .ok start ∧
    md.rebuild (start.requestAll ["A", "A"]).2 [⟨1, 5⟩] = .ok block ∧
    Root.ofBytes block = .ok root ∧ root.streams.map (·.name) = ["#~", "#Strings", "#US"] ∧
    StreamEntry.Consecutive root.byteSize root.streams block.size := by
  obtain ⟨image, _, hOk⟩ := Except.bind_eq_ok.1 (Except.toOption_eq_some.1 relisted_selfCall)
  obtain ⟨md, hLocate, hOk⟩ := Except.bind_eq_ok.1 hOk
  obtain ⟨start, hStart, hOk⟩ := Except.bind_eq_ok.1 hOk
  obtain ⟨block, hRebuild, hOk⟩ := Except.bind_eq_ok.1 hOk
  obtain ⟨hNames, hCount⟩ := Prod.mk.inj (Except.ok.inj hOk)
  obtain ⟨hLength, hAdded⟩ := Prod.mk.inj hCount
  have hFew : (withLiterals md.root (start.requestAll ["A", "A"]).2).streams.length ≤ 6 := by
    rw [hLength]
    decide
  obtain ⟨hRead, hSmall, hStreams⟩ := ofBytes_rebuild hLocate hRebuild hFew
  obtain ⟨root, hRead⟩ := hRead.2 (hSmall ⟨start, _, hStart, rfl⟩)
  have hRelists := hStreams root hRead
  have hListed := hRelists.names_eq
  rw [hNames, if_pos (of_decide_eq_true hAdded)] at hListed
  rw [← (foundIn_of_locate hLocate).image_eq] at hLocate
  exact ⟨md, start, block, root, hLocate, hStart, hRebuild, hRead, hListed,
    hRelists.consecutive⟩

/-- The metadata of a type `A` with one method `A`, with a stream of literals behind all others. -/
def literateMetadata (rva : Nat) : List UInt8 :=
  [leBytes 4 Root.magic, leBytes 2 1, leBytes 2 1, leBytes 4 0, leBytes 4 4, [0x76, 0, 0, 0],
    leBytes 2 0, leBytes 2 3, leBytes 4 68, leBytes 4 60, [0x23, 0x7E, 0, 0], leBytes 4 128,
    leBytes 4 4, [0x23, 0x53, 0x74, 0x72, 0x69, 0x6E, 0x67, 0x73, 0, 0, 0, 0], leBytes 4 132,
    leBytes 4 4, [0x23, 0x55, 0x53, 0], (Module.sampleMetadata rva).drop 56, leBytes 4 0].flatten

/-- A file with a stream of literals. -/
def literate : Bytes :=
  let size := leBytes 4 216
  [Module.sampleHeaders 1 216 384 384, [0x2E, 0x74, 0x65, 0x78, 0x74, 0, 0, 0], size,
    leBytes 4 384, size, leBytes 4 384, .replicate 56 0, (Module.sampleCode 464).set 12 136,
    literateMetadata 456].flatten.toArray

/-- Loads a file, and tells which streams its metadata has and how large those in front of the
literals are. -/
def shelved (data : Bytes) : Except Fault (List String × Nat × Nat × Option Nat) := do
  let image ← Image.ofBytes data
  let _ ← Module.ofImage image
  let md ← locate image
  let source ← md.stream TableStream.streamName
  let _ ← TableStream.ofBytes source
  let names ← md.stream? Identifiers.streamName
  return (md.root.streams.map (·.name), md.root.byteSize, source.size, names.map (·.size))

/-- The file is accepted. In front of its literals there are 132 bytes of metadata. -/
theorem shelved_literate : (shelved literate).toOption
    = some (["#~", "#Strings", "#US"], 68, 60, some 4) := by
  unfold shelved Module.ofImage Streams.ofMetadata stream stream? locate Image.slice Bytes.slice
  simp only [extract_eq_toArray]
  decide +kernel

/-- Metadata whose last stream holds the literals is rebuilt with any heap whose size fits 32
bits. -/
theorem exists_rebuild_of_last {source names : Bytes} {s : TableStream}
    (hNames : md.root.streams.map (·.name) = ["#~", "#Strings", "#US"])
    (hHead : md.root.byteSize = 68) (hSource : md.stream TableStream.streamName = .ok source)
    (hTables : TableStream.ofBytes source = .ok s)
    (hStrings : md.stream? Identifiers.streamName = .ok (some names)) (hSize : source.size = 60)
    (hNamed : names.size = 4) (hAdded : pool.added = 0)
    (hPool : (pool.finish.padTo 4).size < byteRange 4) :
    ∃ block, md.rebuild pool [] = .ok block := by
  have hSame : withLiterals md.root pool = md.root := withLiterals_of_added hAdded
  obtain ⟨first, second, third, hStreams⟩ : ∃ a b c, md.root.streams = [a, b, c] :=
    List.length_eq_three.1 (by simpa using congrArg List.length hNames)
  have hContents : md.payloads source pool.finish md.root.streams
      = .ok [source, names, pool.finish] := by
    rw [hStreams] at hNames ⊢
    simp only [List.map_cons, List.map_nil, List.cons.injEq, and_true] at hNames
    obtain ⟨hFirst, hSecond, hThird⟩ := hNames
    simp [payloads, hFirst, hSecond, hThird, TableStream.streamName, Literals.streamName,
      show md.stream? "#Strings" = .ok (some names) from hStrings]
    rfl
  have hPadded : (source.padTo 4).size = 60 ∧ (names.padTo 4).size = 4 := by
    rw [size_padTo _ (by decide), size_padTo _ (by decide), hSize, hNamed]
    exact ⟨rfl, rfl⟩
  obtain ⟨streams, hArrange⟩ : ∃ streams, arrange md.root.byteSize
      (md.root.streams.zip ([source, names, pool.finish].map (·.padTo 4))) = .ok streams := by
    rw [hStreams, hHead]
    refine exists_arrange ?_ ?_
    · simp [hPadded, byteRange]
    · simpa [hPadded, byteRange] using hPool
  have hLength : streams.length = 3 := by
    have hLengths := congrArg List.length (names_of_arrange hArrange)
    simpa [hStreams] using hLengths
  obtain ⟨head, hEncode⟩ : ∃ head, Root.encode { md.root with streams := streams } = .ok head :=
    ⟨_, if_neg (by dsimp only; omega)⟩
  refine ⟨([source, names, pool.finish].map (·.padTo 4)).foldl (· ++ ·) head, rebuild_eq_ok.2
    ⟨source, s, source, [source, names, pool.finish], streams, head, hSource, hTables, rfl, ?_⟩⟩
  rw [hSame]
  exact ⟨hContents, hArrange, hEncode, rfl⟩

/-- Literals that end beyond 32 bits are not read again, however well their size alone fits. -/
theorem not_ofBytes_of_literals (hFound : md.FoundIn image)
    (hRebuild : md.rebuild pool redirects = .ok block)
    (hListed : ((withLiterals md.root pool).stream? Literals.streamName).isSome)
    (hLarge : byteRange 4 ≤ (withLiterals md.root pool).byteSize + pool.finish.size) (root : Root) :
    Root.ofBytes block ≠ .ok root := by
  intro hRead
  have hLess := size_lt_of_ofBytes hFound.names_known hFound.versionSize_lt hRebuild hRead
  obtain ⟨_, _, _, _, _, _, _, _, _, _, _, hDirectory⟩ :=
    directory_of_rebuild hFound.names_known hRebuild
  have hInside := hDirectory.literals_le hListed
  omega

/-- A heap that starts like the one of no image, and takes almost four gigabytes, leaves no room for
the streams in front of it. The metadata is rebuilt all the same, since only the place and the size
of each stream are checked, and not where the stream ends. -/
theorem not_ofBytes_rebuild_of_pool : ¬ ∀ (data heap : Bytes) (image : Image) (m : Module)
    (md : Metadata) (pool : LiteralPool) (redirects : List Redirect) (block : Bytes),
    Image.ofBytes data = .ok image → Module.ofImage image = .ok m → locate image = .ok md →
    LiteralPool.ofBytes heap = .ok pool → md.rebuild pool redirects = .ok block →
    (withLiterals md.root pool).streams.length ≤ 6 → ∃ root, Root.ofBytes block = .ok root := by
  intro hAll
  obtain ⟨image, hImage, hOk⟩ := Except.bind_eq_ok.1 (Except.toOption_eq_some.1 shelved_literate)
  obtain ⟨m, hModule, hOk⟩ := Except.bind_eq_ok.1 hOk
  obtain ⟨md, hLocate, hOk⟩ := Except.bind_eq_ok.1 hOk
  obtain ⟨source, hSource, hOk⟩ := Except.bind_eq_ok.1 hOk
  obtain ⟨s, hTables, hOk⟩ := Except.bind_eq_ok.1 hOk
  obtain ⟨found, hFound, hOk⟩ := Except.bind_eq_ok.1 hOk
  obtain ⟨hNames, hHead, hSize, hListed⟩ :
      md.root.streams.map (·.name) = ["#~", "#Strings", "#US"] ∧ md.root.byteSize = 68 ∧
        source.size = 60 ∧ found.map (·.size) = some 4 := by
    simpa using Except.ok.inj hOk
  obtain ⟨names, rfl, hNamed⟩ := Option.map_eq_some_iff.1 hListed
  -- The number is kept apart, since nothing should ever count up to it.
  obtain ⟨count, hCount⟩ : ∃ count, count = 0xFFFFFFFB := ⟨_, rfl⟩
  have hPool := LiteralPool.ofBytes_zeros count
  generalize hGiven : (⟨#[0] ++ Array.replicate count 0, [], 0⟩ : LiteralPool) = pool at hPool
  have hFinish : pool.finish.size = 0xFFFFFFFC := by
    rw [← hGiven, LiteralPool.finish, size_padTo _ (by decide), Array.size_append,
      Array.size_replicate, hCount]
    rfl
  have hAdded : pool.added = 0 := by rw [← hGiven]
  have hSame : withLiterals md.root pool = md.root := withLiterals_of_added hAdded
  obtain ⟨block, hRebuild⟩ := exists_rebuild_of_last hNames hHead hSource hTables hFound hSize
    hNamed hAdded (by rw [size_padTo _ (by decide), hFinish]; decide)
  obtain ⟨root, hRead⟩ := hAll literate _ image m md pool [] block hImage hModule hLocate hPool
    hRebuild (by rw [hSame, ← List.length_map (·.name), hNames]; decide)
  refine not_ofBytes_of_literals (foundIn_of_locate hLocate) hRebuild ?_ ?_ root hRead
  · have hMem : Literals.streamName ∈ md.root.streams.map (·.name) := by
      rw [hNames]
      decide
    rw [hSame, Root.stream?, List.find?_isSome]
    simpa using hMem
  · rw [hSame, hHead, hFinish]
    decide

end Metadata

end IlSplice
