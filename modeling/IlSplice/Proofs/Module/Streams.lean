import IlSplice.Module.Load
import IlSplice.Proofs.Body.Locality
import IlSplice.Proofs.Heap.LiteralPool
import IlSplice.Proofs.Metadata.Located
import IlSplice.Proofs.Metadata.Rebuilt
import IlSplice.Proofs.Tables.Redirect

/-! What is looked up in rebuilt metadata. Names, rows and literals are found where they were, apart
from the addresses that methods got. -/

namespace IlSplice

open Bytes

namespace Metadata

variable {md md' : Metadata} {data : Bytes} {pool : LiteralPool}
  {redirects : List Redirect}

theorem stream_eq_ok {name : String} :
    md.stream name = .ok data ↔ md.stream? name = .ok (some data) := by
  constructor
  · intro hStream
    obtain ⟨found, hFound, hSome⟩ := Except.bind_eq_ok.1 hStream
    split at hSome
    · cases hSome
      exact hFound
    · cases hSome
  · exact fun hStream => Except.bind_eq_ok.2 ⟨_, hStream, rfl⟩

/-- The streams that are found in rebuilt metadata are the ones that were written. -/
theorem streams_of_rebuild (name : String) (hFound : md.FoundIn md.image)
    (hFound' : md'.FoundIn md'.image) (hRebuild : md.rebuild pool redirects = .ok md'.block) :
    ∃ source s tables, md.stream? TableStream.streamName = .ok (some source) ∧
      TableStream.ofBytes source = .ok s ∧ s.redirect source redirects = .ok tables ∧
      (∀ data, md'.stream? name = .ok (some data) →
        ∃ content, md.Payload tables pool.finish name content ∧ data = content.padTo 4) ∧
      (md'.stream? name = .ok none → (withLiterals md.root pool).stream? name = none) := by
  have hFrom := hFound.readFrom
  have hNames := (Root.known_of_readStreams hFrom.streams_eq).2
  obtain ⟨source, s, tables, hSource, hTables, hRedirect, hSome, hFind⟩ :=
    stream?_of_rebuild (fun e hMem => (hNames e hMem).1) hFound.versionSize_lt hRebuild
      hFound'.root
  refine ⟨source, s, tables, stream_eq_ok.1 hSource, hTables, hRedirect, fun data hData => ?_,
    fun hNone => ?_⟩
  · rw [hFound'.stream?_eq name, Except.ok.injEq, Option.map_eq_some_iff] at hData
    obtain ⟨entry, hEntry, rfl⟩ := hData
    obtain ⟨content, hPayload, hSize, hHolds⟩ := hFind name entry hEntry
    refine ⟨content, hPayload, ?_⟩
    have hExtract := hHolds.extract
    rwa [Array.length_toList, ← hSize, Array.toArray_toList] at hExtract
  · rw [hFound'.stream?_eq name, Except.ok.injEq, Option.map_eq_none_iff] at hNone
    have hSame := hSome name
    rw [hNone, Option.isSome_none] at hSame
    exact Option.not_isSome_iff_eq_none.1 (by simp [← hSame])

/-- If no stream of literals is listed, no literal was added. -/
theorem withLiterals_eq_none {root : Root}
    (hNone : (withLiterals root pool).stream? Literals.streamName = none) :
    root.stream? Literals.streamName = none ∧ pool.added = 0 := by
  unfold withLiterals at hNone
  split at hNone
  · simp [Root.stream?] at hNone
  · rename_i hEnough
    rw [hNone, Option.isNone_none] at hEnough
    exact ⟨hNone, by simpa using hEnough⟩

end Metadata

namespace Streams

variable {s s' : Streams} {md md' : Metadata} {redirects : List Redirect} {pool pool' : LiteralPool}

/-- The contents that streams are read from, and what is asked of them. -/
theorem ofMetadata_eq_ok_iff : ofMetadata md = .ok s ↔
    (∃ data, md.stream? TableStream.streamName = .ok (some data) ∧
      TableStream.ofBytes data = .ok s.tables) ∧
      md.stream? Identifiers.streamName = .ok (some s.names.data) ∧
      s.names.data[0]? = some 0 ∧
      md.stream? Literals.streamName = .ok (s.literals.map (·.data)) ∧
      ∀ heap ∈ s.literals, heap.data[0]? = some 0 := by
  constructor
  · intro hRead
    obtain ⟨data, hData, hRead⟩ := Except.bind_eq_ok.1 hRead
    obtain ⟨tables, hTables, hRead⟩ := Except.bind_eq_ok.1 hRead
    obtain ⟨nameData, hNameData, hRead⟩ := Except.bind_eq_ok.1 hRead
    obtain ⟨names, hNames, hRead⟩ := Except.bind_eq_ok.1 hRead
    obtain ⟨literalData, hLiteralData, hRead⟩ := Except.bind_eq_ok.1 hRead
    obtain ⟨hStart, rfl⟩ := Identifiers.ofBytes_eq_ok.1 hNames
    rw [Metadata.stream_eq_ok] at hData hNameData
    cases literalData with
    | none =>
        cases hRead
        exact ⟨⟨data, hData, hTables⟩, hNameData, hStart, hLiteralData, by simp⟩
    | some literalData =>
        obtain ⟨literals, hLiterals, hRead⟩ := Except.bind_eq_ok.1 hRead
        obtain ⟨heap, hHeap, rfl⟩ := Except.map_eq_ok.1 hLiterals
        cases hRead
        obtain ⟨hHeapStart, rfl⟩ := Literals.ofBytes_eq_ok.1 hHeap
        exact ⟨⟨data, hData, hTables⟩, hNameData, hStart, hLiteralData, by simpa using hHeapStart⟩
  · rintro ⟨⟨data, hData, hTables⟩, hNameData, hStart, hLiteralData, hHeapStart⟩
    rw [← Metadata.stream_eq_ok] at hData hNameData
    refine Except.bind_eq_ok.2 ⟨data, hData, Except.bind_eq_ok.2 ⟨_, hTables,
      Except.bind_eq_ok.2 ⟨_, hNameData, Except.bind_eq_ok.2
        ⟨s.names, Identifiers.ofBytes_eq_ok.2 ⟨hStart, rfl⟩, ?_⟩⟩⟩⟩
    refine Except.bind_eq_ok.2 ⟨_, hLiteralData, ?_⟩
    obtain ⟨tables, names, literals⟩ := s
    cases literals with
    | none => rfl
    | some heap =>
        refine Except.bind_eq_ok.2 ⟨some heap, Except.map_eq_ok.2 ⟨heap, ?_, rfl⟩, rfl⟩
        exact Literals.ofBytes_eq_ok.2 ⟨hHeapStart heap rfl, rfl⟩

/-- The parts of streams that were read. -/
theorem ofMetadata_eq_ok (hRead : ofMetadata md = .ok s) :
    (∃ data, md.stream? TableStream.streamName = .ok (some data) ∧
      TableStream.ofBytes data = .ok s.tables) ∧
      md.stream? Identifiers.streamName = .ok (some s.names.data) ∧
      md.stream? Literals.streamName = .ok (s.literals.map (·.data)) := by
  obtain ⟨hTables, hNames, _, hLiterals, _⟩ := ofMetadata_eq_ok_iff.1 hRead
  exact ⟨hTables, hNames, hLiterals⟩

/-- Whatever is found in the first streams is found in the others, except that some methods have
new addresses, and the literals of a pool are found as well. -/
structure Carries (s s' : Streams) (redirects : List Redirect) (pool : LiteralPool) : Prop where
  name : ∀ offset text, s.names.get offset = .ok text → s'.names.get offset = .ok text
  rows_eq : ∀ t, s'.tables.rows t = s.tables.rows t
  row : ∀ t row, (∀ r ∈ redirects, t = .methodDef → row ≠ r.row) →
    s'.tables.readRow t row = s.tables.readRow t row
  redirected : ∀ before r after, redirects = before ++ r :: after →
    (∀ r' ∈ after, r'.row ≠ r.row) → ∃ rva columns,
      s.tables.readRow .methodDef r.row = .ok (rva :: columns) ∧
      s'.tables.readRow .methodDef r.row = .ok (r.rva.toNat :: columns)
  literal : ∀ t text, s.literalText t = .ok text → s'.literalText t = .ok text
  added : ∀ t text, t.table = Token.literalTable → (Text.units text, t.row) ∈ pool.known →
    s'.literalText t = .ok text

/-- Names are looked up in the same stream, with some filling behind it that no name reaches. -/
theorem names_of_rebuild (hFound : md.FoundIn md.image) (hFound' : md'.FoundIn md'.image)
    (hRebuild : md.rebuild pool' redirects = .ok md'.block) (hRead : ofMetadata md = .ok s)
    (hRead' : ofMetadata md' = .ok s') {offset : Nat} {text : String}
    (hName : s.names.get offset = .ok text) : s'.names.get offset = .ok text := by
  obtain ⟨_, hNames, _⟩ := ofMetadata_eq_ok hRead
  obtain ⟨_, hNames', _⟩ := ofMetadata_eq_ok hRead'
  obtain ⟨_, _, _, _, _, _, hSome, _⟩ :=
    Metadata.streams_of_rebuild Identifiers.streamName hFound hFound' hRebuild
  obtain ⟨content, hPayload, hSame⟩ := hSome _ hNames'
  obtain ⟨data, hData, rfl⟩ := hPayload
  cases hNames.symm.trans hData
  obtain ⟨hAgree, hSize⟩ := agree_padTo s.names.data 4 (by decide)
  refine Identifiers.get_congr hName ?_ ?_
  · rw [hSame]
    exact hAgree
  · rw [hSame]
    exact hSize

/-- The heap of literals of rebuilt metadata goes on with the literals of the pool. -/
theorem literals_of_rebuild (hFound : md.FoundIn md.image) (hFound' : md'.FoundIn md'.image)
    (hRebuild : md.rebuild pool' redirects = .ok md'.block) (hRead' : ofMetadata md' = .ok s') :
    (∃ heap, s'.literals = some heap ∧ pool'.data.Agree heap.data 0 pool'.data.size ∧
      pool'.data.size ≤ heap.data.size) ∨
    s'.literals = none ∧ (Metadata.withLiterals md.root pool').stream? Literals.streamName = none
      := by
  obtain ⟨_, _, hLiterals⟩ := ofMetadata_eq_ok hRead'
  obtain ⟨_, _, _, _, _, _, hSome, hNone⟩ :=
    Metadata.streams_of_rebuild Literals.streamName hFound hFound' hRebuild
  cases hHeap : s'.literals with
  | none =>
      rw [hHeap] at hLiterals
      exact .inr ⟨rfl, hNone hLiterals⟩
  | some heap =>
      rw [hHeap] at hLiterals
      obtain ⟨content, hPayload, hContent⟩ := hSome _ hLiterals
      obtain rfl : content = pool'.finish := hPayload
      have hSame : heap.data = pool'.finish.padTo 4 := hContent
      obtain ⟨hAgree, hSize⟩ := agree_padTo pool'.data 4 (by decide)
      obtain ⟨hAgain, hAgainSize⟩ := agree_padTo pool'.finish 4 (by decide)
      refine .inl ⟨heap, rfl, ?_, ?_⟩
      · rw [hSame]
        exact hAgree.trans (hAgain.mono (Nat.le_refl _) hSize)
      · rw [hSame]
        exact Nat.le_trans hSize hAgainSize

/-- The streams of rebuilt metadata are compared one by one: the tables, the names and the literals.
-/
theorem carries_of_rebuild (hFound : md.FoundIn md.image) (hFound' : md'.FoundIn md'.image)
    (hRebuild : md.rebuild pool' redirects = .ok md'.block) (hRead : ofMetadata md = .ok s)
    (hRead' : ofMetadata md' = .ok s') (hPool : Module.literalPool md = .ok pool)
    (hSound : pool'.Sound) (hGrows : pool.Grows pool') : s.Carries s' redirects pool' := by
  obtain ⟨⟨source, hSource, hTables⟩, _, hLiterals⟩ := ofMetadata_eq_ok hRead
  obtain ⟨⟨source', hSource', hTables'⟩, _, _⟩ := ofMetadata_eq_ok hRead'
  obtain ⟨_, _, tables, hSame, hSameTables, hRedirect, hSome, _⟩ :=
    Metadata.streams_of_rebuild TableStream.streamName hFound hFound' hRebuild
  cases hSource.symm.trans hSame
  cases hTables.symm.trans hSameTables
  obtain ⟨content, hPayload, rfl⟩ := hSome _ hSource'
  obtain rfl : content = tables := hPayload
  obtain ⟨start, hOld⟩ := TableStream.readFrom_of_ofBytes hTables
  obtain ⟨start', hNew⟩ := TableStream.readFrom_of_ofBytes hTables'
  obtain ⟨hAgree, hSize⟩ := agree_padTo content 4 (by decide)
  obtain ⟨heapData, hHeapData, hPool⟩ := Except.bind_eq_ok.1 hPool
  obtain rfl := Except.ok.inj (hLiterals.symm.trans hHeapData)
  obtain ⟨hPoolData, hNothing, _⟩ := LiteralPool.sound_of_ofBytes hPool
  have hHeap := literals_of_rebuild hFound hFound' hRebuild hRead'
  refine ⟨fun offset text => names_of_rebuild hFound hFound' hRebuild hRead hRead', fun t => ?_,
    fun t row hOther => TableStream.readRow_of_redirect hOld hNew hRedirect hAgree hSize hOther,
    fun before r after hSplit hLast => ?_, fun t text hText => ?_, fun t text hTable hKnown => ?_⟩
  · rw [TableStream.rows, (TableStream.layout_of_redirect hOld hNew hRedirect hAgree hSize).1,
      TableStream.rows]
  · subst hSplit
    exact TableStream.readRow_redirected hOld hNew hRedirect hAgree hSize hLast
  · unfold literalText at hText
    split at hText
    · cases hText
    rename_i heap hOldHeap
    split at hText
    · rename_i hTable
      rw [hOldHeap] at hPoolData hLiterals
      have hPoolHeap : pool.data = heap.data := hPoolData
      rcases hHeap with ⟨heap', hNewHeap, hHeapAgree, hHeapSize⟩ | ⟨_, hNone⟩
      · rw [literalText, hNewHeap]
        dsimp only
        rw [if_pos hTable]
        refine Literals.get_congr hText ?_ ?_
        · rw [← hPoolHeap]
          exact hGrows.agree.trans (hHeapAgree.mono (Nat.le_refl _) hGrows.size_le)
        · rw [← hPoolHeap]
          exact Nat.le_trans hGrows.size_le hHeapSize
      · rw [Metadata.stream?, (Metadata.withLiterals_eq_none hNone).1] at hLiterals
        cases hLiterals
    · cases hText
  · have hUnits := hSound _ hKnown
    rcases hHeap with ⟨heap', hNewHeap, hHeapAgree, hHeapSize⟩ | ⟨_, hNone⟩
    · rw [literalText, hNewHeap]
      dsimp only
      rw [if_pos hTable]
      exact Literals.get_of_getUnits (Literals.getUnits_congr hUnits hHeapAgree hHeapSize)
    · -- Without a heap nothing was added to a pool that holds no text.
      obtain ⟨hNoEntry, hAdded⟩ := Metadata.withLiterals_eq_none hNone
      rw [hFound.stream?_eq, hNoEntry] at hLiterals
      rw [← Except.ok.inj hLiterals] at hPool
      rw [hGrows.same (hAdded.trans hNothing.symm)] at hKnown
      cases LiteralPool.ofBytes_started.symm.trans hPool
      cases hKnown

end Streams

end IlSplice
