import IlSplice.Metadata.Rebuilt
import IlSplice.Proofs.Image.Placement
import IlSplice.Proofs.Metadata.Root
import IlSplice.Proofs.Tables.Redirect

/-! The rebuilt metadata. The first stream of each name is found under its name again, with its
contents filled up to a multiple of four bytes. -/

namespace IlSplice

open Bytes

namespace StreamEntry

variable {entries : List StreamEntry} {start stop : Nat}

/-- Streams that stand one behind the other. -/
def Consecutive : Nat → List StreamEntry → Nat → Prop
  | start, [], stop => start = stop
  | start, e :: rest, stop =>
    e.offset.toNat = start ∧ Consecutive (start + e.size.toNat) rest stop

/-- By induction on the streams, none of which starts in front of an earlier one. -/
theorem Consecutive.bounds (h : Consecutive start entries stop) :
    ∀ e ∈ entries, start ≤ e.offset.toNat ∧ e.offset.toNat + e.size.toNat ≤ stop := by
  suffices start ≤ stop ∧
      ∀ e ∈ entries, start ≤ e.offset.toNat ∧ e.offset.toNat + e.size.toNat ≤ stop from this.2
  induction entries generalizing start with
  | nil => exact ⟨Nat.le_of_eq h, by simp⟩
  | cons e rest ih =>
      obtain ⟨rfl, hRest⟩ := h
      obtain ⟨hLe, hBounds⟩ := ih hRest
      rw [List.forall_mem_cons]
      refine ⟨by omega, ⟨Nat.le_refl _, hLe⟩, fun e' hMem => ?_⟩
      obtain ⟨hStart, hStop⟩ := hBounds e' hMem
      exact ⟨by omega, hStop⟩

/-- The last of the streams ends where all of them end. -/
theorem Consecutive.exists_stop (h : Consecutive start entries stop) (hSome : entries ≠ []) :
    ∃ e ∈ entries, e.offset.toNat + e.size.toNat = stop := by
  induction entries generalizing start with
  | nil => exact (hSome rfl).elim
  | cons e rest ih =>
      obtain ⟨rfl, hRest⟩ := h
      cases rest with
      | nil => exact ⟨e, List.mem_cons_self, hRest⟩
      | cons e' rest =>
          obtain ⟨found, hMem, hStop⟩ := ih hRest (List.cons_ne_nil _ _)
          exact ⟨found, List.mem_cons_of_mem _ hMem, hStop⟩

/-- The bound counts every stream with the largest size. A better one is not needed. -/
theorem Consecutive.stop_le (h : Consecutive start entries stop) (bound : Nat)
    (hSizes : ∀ e ∈ entries, e.size.toNat ≤ bound) : stop ≤ start + entries.length * bound := by
  induction entries generalizing start with
  | nil => exact Nat.le_add_right_of_le (Nat.le_of_eq (Eq.symm h))
  | cons e rest ih =>
      rw [List.forall_mem_cons] at hSizes
      obtain ⟨rfl, hRest⟩ := h
      have hStop := ih hRest hSizes.2
      rw [List.length_cons, Nat.add_mul, Nat.one_mul]
      omega

/-- Starts stay aligned if all sizes are. -/
theorem Consecutive.aligned {alignment : Nat} (h : Consecutive start entries stop)
    (hStart : alignment ∣ start) (hSizes : ∀ e ∈ entries, alignment ∣ e.size.toNat) :
    ∀ e ∈ entries, alignment ∣ e.offset.toNat := by
  induction entries generalizing start with
  | nil => simp
  | cons e rest ih =>
      rw [List.forall_mem_cons] at hSizes ⊢
      obtain ⟨rfl, hRest⟩ := h
      exact ⟨hStart, ih hRest (Nat.dvd_add hStart hSizes.1) hSizes.2⟩

end StreamEntry

namespace Metadata

variable {md : Metadata} {pool : LiteralPool} {tables literals block : Bytes} {name : String}
  {entries streams : List StreamEntry} {contents : List Bytes} {offset : Nat}

/-- The contents that the first stream of a name gets. -/
def Payload (md : Metadata) (tables literals : Bytes) (name : String) (content : Bytes) : Prop :=
  if name = TableStream.streamName then content = tables
  else if name = Literals.streamName then content = literals
  else ∃ data, md.stream? name = .ok data ∧ content = data.getD #[]

/-- What the first stream takes is not there for the others, which matters to those of its name
only. -/
theorem payloads_cons_eq_ok {entry : StreamEntry}
    (hPayloads : md.payloads tables literals (entry :: entries) = .ok contents) :
    ∃ tables' literals' content others, contents = content :: others ∧
      md.payloads tables' literals' entries = .ok others ∧
      (tables' = tables ∨ tables' = #[]) ∧ (literals' = literals ∨ literals' = #[]) ∧
      md.Payload tables literals entry.name content ∧
      ∀ name c, name ≠ entry.name → md.Payload tables' literals' name c →
        md.Payload tables literals name c := by
  rw [payloads] at hPayloads
  split at hPayloads
  · rename_i hTables
    obtain ⟨others, hOthers, hPayloads⟩ := Except.bind_eq_ok.1 hPayloads
    cases hPayloads
    refine ⟨#[], literals, tables, others, rfl, hOthers, .inr rfl, .inl rfl,
      by rw [Payload, if_pos hTables], ?_⟩
    intro name c hName hPayload
    rw [hTables] at hName
    rwa [Payload, if_neg hName] at hPayload ⊢
  · rename_i hNotTables
    split at hPayloads
    · rename_i hLiterals
      obtain ⟨others, hOthers, hPayloads⟩ := Except.bind_eq_ok.1 hPayloads
      cases hPayloads
      refine ⟨tables, #[], literals, others, rfl, hOthers, .inl rfl, .inr rfl, ?_, ?_⟩
      · rw [Payload, if_neg hNotTables, if_pos hLiterals]
      · intro name c hName hPayload
        rw [hLiterals] at hName
        rwa [Payload, if_neg hName] at hPayload ⊢
    · rename_i hNotLiterals
      obtain ⟨data, hData, hPayloads⟩ := Except.bind_eq_ok.1 hPayloads
      obtain ⟨others, hOthers, hPayloads⟩ := Except.bind_eq_ok.1 hPayloads
      cases hPayloads
      refine ⟨tables, literals, data.getD #[], others, rfl, hOthers, .inl rfl, .inl rfl, ?_,
        fun _ _ _ h => h⟩
      rw [Payload, if_neg hNotTables, if_neg hNotLiterals]
      exact ⟨data, hData, rfl⟩

/-- By induction on the streams, until the first one of the name. -/
theorem payload_of_payloads (hPayloads : md.payloads tables literals entries = .ok contents)
    {entry : StreamEntry} {content : Bytes}
    (hFind : (entries.zip contents).find? (·.1.name == name) = some (entry, content)) :
    md.Payload tables literals name content := by
  induction entries generalizing tables literals contents with
  | nil => cases hFind
  | cons first rest ih =>
      obtain ⟨tables', literals', head, others, rfl, hOthers, _, _, hHead, hRest⟩ :=
        payloads_cons_eq_ok hPayloads
      rw [List.zip_cons_cons, List.find?_cons] at hFind
      split at hFind
      · rename_i hName
        cases hFind
        rw [beq_iff_eq] at hName
        exact hName ▸ hHead
      · rename_i hName
        exact hRest _ _ (fun hSame => by simp [hSame] at hName) (ih hOthers hFind)

theorem length_payloads (hPayloads : md.payloads tables literals entries = .ok contents) :
    contents.length = entries.length := by
  induction entries generalizing tables literals contents with
  | nil =>
      cases hPayloads
      rfl
  | cons first rest ih =>
      obtain ⟨_, _, _, others, rfl, hOthers, _⟩ := payloads_cons_eq_ok hPayloads
      rw [List.length_cons, List.length_cons, ih hOthers]

/-- No contents are larger than those that there were before. -/
theorem size_le_of_payloads {bound : Nat} (hTables : tables.size ≤ bound)
    (hLiterals : literals.size ≤ bound)
    (hStreams : ∀ name data, md.stream? name = .ok (some data) → data.size ≤ bound)
    (hPayloads : md.payloads tables literals entries = .ok contents) :
    ∀ content ∈ contents, content.size ≤ bound := by
  induction entries generalizing tables literals contents with
  | nil =>
      cases hPayloads
      simp
  | cons first rest ih =>
      obtain ⟨tables', literals', content, others, rfl, hOthers, hLess, hLess', hContent, _⟩ :=
        payloads_cons_eq_ok hPayloads
      rw [List.forall_mem_cons]
      refine ⟨?_, ih ?_ ?_ hOthers⟩
      · unfold Payload at hContent
        split at hContent
        · exact hContent ▸ hTables
        split at hContent
        · exact hContent ▸ hLiterals
        · obtain ⟨data, hData, rfl⟩ := hContent
          cases data with
          | none => exact Nat.zero_le _
          | some data => exact hStreams _ _ hData
      · rcases hLess with rfl | rfl
        · exact hTables
        · exact Nat.zero_le _
      · rcases hLess' with rfl | rfl
        · exact hLiterals
        · exact Nat.zero_le _

/-- A stream is put where the one before it ends. Its offset and its size are checked for 32 bits
one by one, and their sum is not. -/
theorem arrange_cons_eq_ok {entry : StreamEntry} {content : Bytes}
    {rest : List (StreamEntry × Bytes)}
    (hArrange : arrange offset ((entry, content) :: rest) = .ok streams) :
    ∃ start size others, start.toNat = offset ∧ size.toNat = content.size ∧
      arrange (offset + content.size) rest = .ok others ∧
      streams = ⟨start, size, entry.name⟩ :: others := by
  rw [arrange] at hArrange
  obtain ⟨start, hStart, hArrange⟩ := Except.bind_eq_ok.1 hArrange
  obtain ⟨size, hSize, hArrange⟩ := Except.bind_eq_ok.1 hArrange
  obtain ⟨others, hOthers, hArrange⟩ := Except.bind_eq_ok.1 hArrange
  cases hArrange
  exact ⟨start, size, others, word_eq_ok hStart, word_eq_ok hSize, hOthers, rfl⟩

theorem names_of_arrange {pairs : List (StreamEntry × Bytes)}
    (hArrange : arrange offset pairs = .ok streams) :
    streams.map (·.name) = pairs.map (·.1.name) := by
  induction pairs generalizing offset streams with
  | nil =>
      cases hArrange
      rfl
  | cons pair rest ih =>
      obtain ⟨_, _, others, _, _, hOthers, rfl⟩ := arrange_cons_eq_ok hArrange
      rw [List.map_cons, List.map_cons, ih hOthers]

/-- The entries that are listed say where the contents are. -/
theorem find?_arrange {pairs : List (StreamEntry × Bytes)}
    (hArrange : arrange offset pairs = .ok streams)
    (hHolds : block.Holds offset (pairs.map (·.2.toList)).flatten) {entry : StreamEntry}
    (hFind : streams.find? (·.name == name) = some entry) :
    ∃ pair, pairs.find? (·.1.name == name) = some pair ∧ entry.size.toNat = pair.2.size ∧
      block.Holds entry.offset.toNat pair.2.toList := by
  induction pairs generalizing offset streams with
  | nil =>
      cases hArrange
      cases hFind
  | cons pair rest ih =>
      obtain ⟨start, size, others, rfl, hSize, hOthers, rfl⟩ := arrange_cons_eq_ok hArrange
      rw [List.map_cons, List.flatten_cons] at hHolds
      obtain ⟨hFirst, hRest⟩ := holds_append.1 hHolds
      rw [Array.length_toList] at hRest
      rw [List.find?_cons] at hFind ⊢
      split at hFind
      · rename_i hName
        cases hFind
        rw [hName]
        exact ⟨pair, rfl, hSize, hFirst⟩
      · rename_i hName
        rw [hName]
        exact ih hOthers hRest hFind

/-- Streams are given places if all of them but the last end within 32 bits, and if the size of each
fits 32 bits. -/
theorem exists_arrange {pairs : List (StreamEntry × Bytes)}
    (hFront : offset + (pairs.dropLast.map (·.2.size)).sum < byteRange 4)
    (hSizes : ∀ pair ∈ pairs, pair.2.size < byteRange 4) :
    ∃ streams, arrange offset pairs = .ok streams := by
  induction pairs generalizing offset with
  | nil => exact ⟨[], rfl⟩
  | cons pair rest ih =>
      rw [List.forall_mem_cons] at hSizes
      have hStart : word offset = .ok (UInt32.ofNat offset) :=
        if_pos (Nat.lt_of_le_of_lt (Nat.le_add_right _ _) hFront)
      have hSize : word pair.2.size = .ok (UInt32.ofNat pair.2.size) := if_pos hSizes.1
      obtain ⟨others, hOthers⟩ : ∃ others, arrange (offset + pair.2.size) rest = .ok others := by
        cases rest with
        | nil => exact ⟨[], rfl⟩
        | cons next rest =>
            refine ih ?_ hSizes.2
            rw [List.dropLast_cons_cons, List.map_cons, List.sum_cons] at hFront
            omega
      exact ⟨_, Except.bind_eq_ok.2 ⟨_, hStart, Except.bind_eq_ok.2 ⟨_, hSize,
        Except.bind_eq_ok.2 ⟨others, hOthers, rfl⟩⟩⟩⟩

/-- The parts that rebuilt metadata consists of. -/
theorem rebuild_eq_ok {redirects : List Redirect} : md.rebuild pool redirects = .ok block ↔
    ∃ source s tables contents streams head, md.stream TableStream.streamName = .ok source ∧
      TableStream.ofBytes source = .ok s ∧ s.redirect source redirects = .ok tables ∧
      md.payloads tables pool.finish (withLiterals md.root pool).streams = .ok contents ∧
      arrange (withLiterals md.root pool).byteSize
        ((withLiterals md.root pool).streams.zip (contents.map (·.padTo 4))) = .ok streams ∧
      Root.encode { withLiterals md.root pool with streams := streams } = .ok head ∧
      block = (contents.map (·.padTo 4)).foldl (· ++ ·) head := by
  constructor
  · intro hRebuild
    obtain ⟨source, hSource, hRebuild⟩ := Except.bind_eq_ok.1 hRebuild
    obtain ⟨s, hStream, hRebuild⟩ := Except.bind_eq_ok.1 hRebuild
    obtain ⟨tables, hTables, hRebuild⟩ := Except.bind_eq_ok.1 hRebuild
    obtain ⟨contents, hContents, hRebuild⟩ := Except.bind_eq_ok.1 hRebuild
    obtain ⟨streams, hStreams, hRebuild⟩ := Except.bind_eq_ok.1 hRebuild
    obtain ⟨head, hHead, hRebuild⟩ := Except.bind_eq_ok.1 hRebuild
    cases hRebuild
    exact ⟨source, s, tables, contents, streams, head, hSource, hStream, hTables, hContents,
      hStreams, hHead, rfl⟩
  · rintro ⟨source, s, tables, contents, streams, head, hSource, hStream, hTables, hContents,
      hStreams, hHead, rfl⟩
    exact Except.bind_eq_ok.2 ⟨source, hSource, Except.bind_eq_ok.2 ⟨s, hStream,
      Except.bind_eq_ok.2 ⟨tables, hTables, Except.bind_eq_ok.2 ⟨contents, hContents,
        Except.bind_eq_ok.2 ⟨streams, hStreams, Except.bind_eq_ok.2 ⟨head, hHead, rfl⟩⟩⟩⟩⟩⟩

theorem isSome_find?_name {others : List StreamEntry}
    (hNames : entries.map (·.name) = others.map (·.name)) (name : String) :
    (entries.find? (·.name == name)).isSome = (others.find? (·.name == name)).isSome := by
  have hMem : ∀ l : List StreamEntry,
      (l.find? (·.name == name)).isSome ↔ name ∈ l.map (·.name) := by
    intro l
    simp
  rw [Bool.eq_iff_iff, hMem, hMem, hNames]

/-- The size of the directory depends on the names only. -/
theorem byteSize_of_names {root : Root}
    (hNames : streams.map (·.name) = root.streams.map (·.name)) :
    Root.byteSize { root with streams := streams } = root.byteSize := by
  have hFold : ∀ l : List StreamEntry, l.foldr (fun entry size => entry.byteSize + size) 0
      = (l.map (·.name)).foldr (fun name size => StreamEntry.byteSize ⟨0, 0, name⟩ + size) 0 := by
    intro l
    rw [List.foldr_map]
    rfl
  rw [Root.byteSize, hFold, hNames, ← hFold]
  rfl

/-- The stream that may be added has a known name, and nothing else of the root is changed. -/
theorem names_withLiterals {root : Root}
    (hNames : ∀ e ∈ root.streams, e.name ∈ StreamEntry.knownNames) (pool : LiteralPool) :
    (∀ e ∈ (withLiterals root pool).streams, e.name ∈ StreamEntry.knownNames) ∧
      (withLiterals root pool).versionSize = root.versionSize := by
  unfold withLiterals
  split
  · refine ⟨?_, rfl⟩
    simp only [List.forall_mem_append, List.forall_mem_singleton]
    exact ⟨hNames, by decide⟩
  · exact ⟨hNames, rfl⟩

/-- The streams that are listed lie where their contents are put. -/
theorem consecutive_of_arrange {pairs : List (StreamEntry × Bytes)}
    (hArrange : arrange offset pairs = .ok streams) :
    StreamEntry.Consecutive offset streams
      (offset + (pairs.map (·.2.toList)).flatten.length) := by
  induction pairs generalizing offset streams with
  | nil =>
      cases hArrange
      exact (Nat.add_zero _).symm
  | cons pair rest ih =>
      obtain ⟨start, size, others, rfl, hSize, hOthers, rfl⟩ := arrange_cons_eq_ok hArrange
      rw [List.map_cons, List.flatten_cons, List.length_append, Array.length_toList, ← hSize,
        ← Nat.add_assoc]
      rw [← hSize] at hOthers
      exact ⟨rfl, ih hOthers⟩

theorem sizes_of_arrange {pairs : List (StreamEntry × Bytes)}
    (hArrange : arrange offset pairs = .ok streams) :
    ∀ e ∈ streams, ∃ pair ∈ pairs, e.size.toNat = pair.2.size := by
  induction pairs generalizing offset streams with
  | nil =>
      cases hArrange
      simp
  | cons pair rest ih =>
      obtain ⟨start, size, others, _, hSize, hOthers, rfl⟩ := arrange_cons_eq_ok hArrange
      rw [List.forall_mem_cons]
      refine ⟨⟨pair, List.mem_cons_self, hSize⟩, fun e hMem => ?_⟩
      obtain ⟨found, hFound, hSame⟩ := ih hOthers e hMem
      exact ⟨found, List.mem_cons_of_mem _ hFound, hSame⟩

/-- The directory of rebuilt metadata, and the contents behind it. -/
structure Directory (md : Metadata) (pool : LiteralPool) (tables block : Bytes)
    (streams : List StreamEntry) : Prop where
  names_eq : streams.map (·.name) = (withLiterals md.root pool).streams.map (·.name)
  consecutive : StreamEntry.Consecutive (withLiterals md.root pool).byteSize streams block.size
  sizes : ∃ contents, md.payloads tables pool.finish (withLiterals md.root pool).streams
    = .ok contents ∧ ∀ e ∈ streams, ∃ content ∈ contents, e.size.toNat = alignUp content.size 4
  content : ∀ name entry, streams.find? (·.name == name) = some entry →
    ∃ content, md.Payload tables pool.finish name content ∧
      entry.size.toNat = (content.padTo 4).size ∧
      block.Holds entry.offset.toNat (content.padTo 4).toList

/-- All that is known about rebuilt metadata before it is read again. Later proofs go by this
instead of the steps. -/
theorem directory_of_rebuild {redirects : List Redirect}
    (hNames : ∀ e ∈ md.root.streams, e.name ∈ StreamEntry.knownNames)
    (hRebuild : md.rebuild pool redirects = .ok block) :
    ∃ source s tables streams head, md.stream TableStream.streamName = .ok source ∧
      TableStream.ofBytes source = .ok s ∧ s.redirect source redirects = .ok tables ∧
      Root.encode { withLiterals md.root pool with streams := streams } = .ok head ∧
      (∀ e ∈ streams, e.name ∈ StreamEntry.knownNames) ∧ block.Holds 0 head.toList ∧
      md.Directory pool tables block streams := by
  obtain ⟨source, s, tables, contents, streams, head, hSource, hStream, hTables, hContents,
    hArrange, hHead, hBlock⟩ := rebuild_eq_ok.1 hRebuild
  have hNames' := (names_withLiterals hNames pool).1
  have hSizes := length_payloads hContents
  have hZip : ((withLiterals md.root pool).streams.zip (contents.map (·.padTo 4))).map (·.2)
      = contents.map (·.padTo 4) :=
    List.map_snd_zip (by rw [List.length_map]; omega)
  have hFst : ((withLiterals md.root pool).streams.zip (contents.map (·.padTo 4))).map (·.1)
      = (withLiterals md.root pool).streams :=
    List.map_fst_zip (by rw [List.length_map]; omega)
  have hSame : streams.map (·.name) = (withLiterals md.root pool).streams.map (·.name) := by
    rw [names_of_arrange hArrange]
    refine Eq.trans ?_ (congrArg (List.map (·.name)) hFst)
    rw [List.map_map]
    rfl
  have hKnown : ∀ e ∈ streams, e.name ∈ StreamEntry.knownNames := by
    intro e hMem
    have hName : e.name ∈ (withLiterals md.root pool).streams.map (·.name) :=
      hSame ▸ List.mem_map_of_mem hMem
    obtain ⟨e', hMem', hEq⟩ := List.mem_map.1 hName
    exact hEq ▸ hNames' e' hMem'
  have hBytes : block.toList
      = head.toList ++ ((contents.map (·.padTo 4)).map Array.toList).flatten := by
    rw [hBlock, toList_foldl_append]
  obtain ⟨hHeadBytes, hBlocks⟩ := holds_append.1 (hBytes ▸ holds_self block)
  have hLength := congrArg List.length hBytes
  rw [Array.length_toList, List.length_append, Array.length_toList, Root.size_encode hHead,
    byteSize_of_names hSame, ← hZip, List.map_map] at hLength
  rw [Nat.zero_add, Array.length_toList, Root.size_encode hHead, byteSize_of_names hSame,
    ← hZip, List.map_map] at hBlocks
  refine ⟨source, s, tables, streams, head, hSource, hStream, hTables, hHead, hKnown, hHeadBytes,
    hSame, ?_, ⟨contents, hContents, fun e hMem => ?_⟩, fun name entry hFind => ?_⟩
  · rw [hLength]
    exact consecutive_of_arrange hArrange
  · obtain ⟨pair, hPair, hSize⟩ := sizes_of_arrange hArrange e hMem
    obtain ⟨content, hContent, hPadded⟩ := List.mem_map.1 (List.of_mem_zip hPair).2
    exact ⟨content, hContent, by rw [hSize, ← hPadded, size_padTo _ (by decide)]⟩
  · obtain ⟨pair, hPair, hSize, hContent⟩ := find?_arrange hArrange hBlocks hFind
    rw [List.zip_map_right, List.find?_map, Option.map_eq_some_iff] at hPair
    obtain ⟨⟨e, content⟩, hPair, rfl⟩ := hPair
    exact ⟨content, payload_of_payloads hContents hPair, hSize, hContent⟩

/-- The directory of rebuilt metadata lists the same names, and leads to the contents. -/
theorem stream?_of_rebuild {redirects : List Redirect} {root : Root}
    (hNames : ∀ e ∈ md.root.streams, e.name ∈ StreamEntry.knownNames)
    (hVersion : md.root.versionSize < byteRange 4)
    (hRebuild : md.rebuild pool redirects = .ok block) (hRead : Root.ofBytes block = .ok root) :
    ∃ source s tables, md.stream TableStream.streamName = .ok source ∧
      TableStream.ofBytes source = .ok s ∧ s.redirect source redirects = .ok tables ∧
      (∀ name, (root.stream? name).isSome = ((withLiterals md.root pool).stream? name).isSome) ∧
      ∀ name entry, root.stream? name = some entry →
        ∃ content, md.Payload tables pool.finish name content ∧
          entry.size.toNat = (content.padTo 4).size ∧
          block.Holds entry.offset.toNat (content.padTo 4).toList := by
  obtain ⟨source, s, tables, streams, head, hSource, hStream, hTables, hHead, hKnown, hHeadBytes,
    hDirectory⟩ := directory_of_rebuild hNames hRebuild
  have hStreams : root.streams = streams := Root.streams_of_encode hHead hHeadBytes hKnown
    ((names_withLiterals hNames pool).2.symm ▸ hVersion) hRead
  refine ⟨source, s, tables, hSource, hStream, hTables, fun name => ?_, fun name entry hFind => ?_⟩
  · rw [Root.stream?, hStreams, isSome_find?_name hDirectory.names_eq, Root.stream?]
  · rw [Root.stream?, hStreams] at hFind
    exact hDirectory.content name entry hFind

theorem isSome_of_stream_eq_ok {data : Bytes} (hStream : md.stream name = .ok data) :
    (md.root.stream? name).isSome := by
  obtain ⟨found, hFound, hSome⟩ := Except.bind_eq_ok.1 hStream
  rw [stream?] at hFound
  cases hEntry : md.root.stream? name with
  | none =>
      rw [hEntry] at hFound
      cases hFound
      cases hSome
  | some entry => rfl

/-- Without new literals no stream is added. -/
theorem withLiterals_of_added {root : Root} (hAdded : pool.added = 0) :
    withLiterals root pool = root := by
  rw [withLiterals, hAdded, if_neg (by simp)]

/-- No stream gets lost. -/
theorem isSome_withLiterals {root : Root} (pool : LiteralPool)
    (hSome : (root.stream? name).isSome) : ((withLiterals root pool).stream? name).isSome := by
  unfold withLiterals
  split
  · rw [Root.stream?, List.find?_append, Option.isSome_or, ← Root.stream?, hSome, Bool.true_or]
  · exact hSome

/-- Adding the stream of literals hides no other stream. -/
theorem stream?_withLiterals {root : Root} (pool : LiteralPool)
    (hOther : name ≠ Literals.streamName) :
    (withLiterals root pool).stream? name = root.stream? name := by
  unfold withLiterals
  split
  · rw [Root.stream?, List.find?_append, List.find?_singleton, if_neg (by simpa using hOther.symm),
      Option.or_none, Root.stream?]
  · rfl

/-- The tables are always listed. -/
theorem Directory.tables_at {source : Bytes} (hDirectory : md.Directory pool tables block streams)
    (hSource : md.stream TableStream.streamName = .ok source) :
    ∃ entry, streams.find? (·.name == TableStream.streamName) = some entry ∧
      block.Holds entry.offset.toNat tables.toList := by
  have hListed : (streams.find? (·.name == TableStream.streamName)).isSome := by
    rw [isSome_find?_name hDirectory.names_eq]
    exact isSome_withLiterals pool (isSome_of_stream_eq_ok hSource)
  obtain ⟨entry, hFind⟩ := Option.isSome_iff_exists.1 hListed
  obtain ⟨content, hPayload, _, hHolds⟩ := hDirectory.content _ _ hFind
  rw [Payload, if_pos rfl] at hPayload
  rw [hPayload, padTo, Array.toList_append] at hHolds
  exact ⟨entry, hFind, (holds_append.1 hHolds).1⟩

/-- The literals stand behind the directory as a whole, and no field of the directory holds the sum
of the two sizes. -/
theorem Directory.literals_le (hDirectory : md.Directory pool tables block streams)
    (hListed : ((withLiterals md.root pool).stream? Literals.streamName).isSome) :
    (withLiterals md.root pool).byteSize + pool.finish.size ≤ block.size := by
  rw [Root.stream?, ← isSome_find?_name hDirectory.names_eq] at hListed
  obtain ⟨entry, hFind⟩ := Option.isSome_iff_exists.1 hListed
  obtain ⟨content, hPayload, hSize, _⟩ := hDirectory.content _ _ hFind
  rw [Payload, if_neg (by decide), if_pos rfl] at hPayload
  have hBounds := hDirectory.consecutive.bounds entry (List.mem_of_find?_eq_some hFind)
  have hPadded := le_alignUp pool.finish.size (show 0 < 4 by decide)
  rw [hPayload, size_padTo _ (by decide)] at hSize
  omega

/-- The tables with the new addresses stand in rebuilt metadata, at the place that its directory
lists. -/
theorem tables_of_rebuild {redirects : List Redirect}
    (hNames : ∀ e ∈ md.root.streams, e.name ∈ StreamEntry.knownNames)
    (hVersion : md.root.versionSize < byteRange 4)
    (hRebuild : md.rebuild pool redirects = .ok block) :
    ∃ source s tables start, md.stream TableStream.streamName = .ok source ∧
      TableStream.ofBytes source = .ok s ∧ s.redirect source redirects = .ok tables ∧
      block.Holds start tables.toList ∧ ∀ root, Root.ofBytes block = .ok root →
        ∃ entry, root.stream? TableStream.streamName = some entry ∧ entry.offset.toNat = start := by
  obtain ⟨source, s, tables, streams, head, hSource, hStream, hTables, hHead, hKnown, hHeadBytes,
    hDirectory⟩ := directory_of_rebuild hNames hRebuild
  obtain ⟨entry, hFind, hHolds⟩ := hDirectory.tables_at hSource
  refine ⟨source, s, tables, entry.offset.toNat, hSource, hStream, hTables, hHolds,
    fun root hRead => ⟨entry, ?_, rfl⟩⟩
  have hStreams : root.streams = streams := Root.streams_of_encode hHead hHeadBytes hKnown
    ((names_withLiterals hNames pool).2.symm ▸ hVersion) hRead
  rw [Root.stream?, hStreams, hFind]

/-- The header of the tables alone makes rebuilt metadata long enough to be looked at. -/
theorem minimum_of_rebuild {redirects : List Redirect}
    (hNames : ∀ e ∈ md.root.streams, e.name ∈ StreamEntry.knownNames)
    (hRebuild : md.rebuild pool redirects = .ok block) : 36 ≤ block.size := by
  obtain ⟨source, s, tables, streams, head, hSource, hStream, hTables, _, _, _, hDirectory⟩ :=
    directory_of_rebuild hNames hRebuild
  obtain ⟨entry, hFind, hHolds⟩ := hDirectory.tables_at hSource
  have hStart := (hDirectory.consecutive.bounds entry (List.mem_of_find?_eq_some hFind)).1
  have hHead : 20 ≤ (withLiterals md.root pool).byteSize := by
    unfold Root.byteSize
    omega
  have hSize := (TableStream.redirect_eq_ok hTables).1.size_eq
  have hHeader := (TableStream.ofBytes_eq_ok.1 hStream).1
  have hStop := hHolds.1
  rw [Array.length_toList] at hStop
  omega

/-- What the reader of a root finds in rebuilt metadata. -/
theorem fields_of_rebuild {redirects : List Redirect}
    (hNames : ∀ e ∈ md.root.streams, e.name ∈ StreamEntry.knownNames)
    (hVersion : md.root.versionSize < byteRange 4)
    (hSignature : md.root.signature.toNat = Root.magic)
    (hRebuild : md.rebuild pool redirects = .ok block) (hSize : block.size < byteRange 4) :
    ∃ source s tables, ∃ root : Root, md.stream TableStream.streamName = .ok source ∧
      TableStream.ofBytes source = .ok s ∧ s.redirect source redirects = .ok tables ∧
      { withLiterals md.root pool with streams := root.streams } = root ∧ root.Fields block ∧
      root.signature.toNat = Root.magic ∧
      Root.readStreams block root.streams.length (16 + root.versionSize + 4) = .ok root.streams ∧
      md.Directory pool tables block root.streams := by
  obtain ⟨source, s, tables, streams, head, hSource, hStream, hTables, hHead, hKnown, hHeadBytes,
    hDirectory⟩ := directory_of_rebuild hNames hRebuild
  have hFields := Root.fields_of_encode hHead hHeadBytes
    ((names_withLiterals hNames pool).2.symm ▸ hVersion)
  have hInside : ∀ e ∈ streams, e.offset.toNat + e.size.toNat ≤ block.size := fun e hMem =>
    (hDirectory.consecutive.bounds e hMem).2
  have hSignature' : (withLiterals md.root pool).signature.toNat = Root.magic := by
    unfold withLiterals
    split <;> exact hSignature
  exact ⟨source, s, tables, _, hSource, hStream, hTables, rfl, hFields, hSignature',
    Root.readStreams_of_inside hKnown hInside
      (fun e hMem => Nat.lt_of_le_of_lt (hInside e hMem) hSize) hFields.streams, hDirectory⟩

/-- Rebuilt metadata that is read again is smaller than four gigabytes, since its last stream ends
within 32 bits. -/
theorem size_lt_of_ofBytes {redirects : List Redirect} {root : Root}
    (hNames : ∀ e ∈ md.root.streams, e.name ∈ StreamEntry.knownNames)
    (hVersion : md.root.versionSize < byteRange 4)
    (hRebuild : md.rebuild pool redirects = .ok block) (hRead : Root.ofBytes block = .ok root) :
    block.size < byteRange 4 := by
  obtain ⟨source, _, _, streams, head, hSource, _, _, hHead, hKnown, hHeadBytes, hDirectory⟩ :=
    directory_of_rebuild hNames hRebuild
  have hStreams : root.streams = streams := Root.streams_of_encode hHead hHeadBytes hKnown
    ((names_withLiterals hNames pool).2.symm ▸ hVersion) hRead
  obtain ⟨entry, hFind, _⟩ := hDirectory.tables_at hSource
  obtain ⟨last, hMem, hStop⟩ := hDirectory.consecutive.exists_stop
    (List.ne_nil_of_mem (List.mem_of_find?_eq_some hFind))
  rw [← hStop]
  exact Root.stop_lt_of_readStreams (Root.readFrom_of_ofBytes hRead).streams_eq last
    (hStreams ▸ hMem)

/-- No stream is added or lost by giving the streams their places. -/
theorem Directory.length_eq (hDirectory : md.Directory pool tables block streams) :
    streams.length = (withLiterals md.root pool).streams.length := by
  simpa using congrArg List.length hDirectory.names_eq

/-- Rebuilt metadata is read again exactly if it lists at most six streams. -/
theorem exists_ofBytes_rebuild_iff {redirects : List Redirect}
    (hNames : ∀ e ∈ md.root.streams, e.name ∈ StreamEntry.knownNames)
    (hVersion : md.root.versionSize < byteRange 4)
    (hSignature : md.root.signature.toNat = Root.magic)
    (hTwo : 2 ≤ md.root.streams.length) (hRebuild : md.rebuild pool redirects = .ok block)
    (hSize : block.size < byteRange 4) : (∃ root, Root.ofBytes block = .ok root) ↔
      (withLiterals md.root pool).streams.length ≤ Root.maxStreams := by
  obtain ⟨source, s, tables, root, _, _, _, _, hFields, hSignature', hEntries, hDirectory⟩ :=
    fields_of_rebuild hNames hVersion hSignature hRebuild hSize
  have hMore : 2 ≤ root.streams.length := by
    rw [hDirectory.length_eq]
    unfold withLiterals
    split
    · simp
      omega
    · exact hTwo
  have hSome : root.streams ≠ [] := List.ne_nil_of_length_pos (by omega)
  rw [Root.exists_ofBytes_iff hFields hSignature' (hFields.minimum hMore) hSome hEntries,
    hDirectory.length_eq]

end Metadata

end IlSplice
