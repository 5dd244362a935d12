import IlSplice.Proofs.Module.Reload

/-! Loading that succeeds again. Metadata that was rebuilt has all streams of the old one, and what
was loaded from an image is loaded from another one that keeps everything, up to a method that has
to be looked at by itself. -/

namespace IlSplice

open Bytes

/-- A stream that was there is there in rebuilt metadata. -/
theorem Metadata.exists_stream_of_rebuild {md md' : Metadata} {redirects : List Redirect}
    {pool : LiteralPool} {data : Bytes} {name : String} (hFound : md.FoundIn md.image)
    (hFound' : md'.FoundIn md'.image) (hRebuild : md.rebuild pool redirects = .ok md'.block)
    (hStream : md.stream? name = .ok (some data)) :
    ∃ data', md'.stream? name = .ok (some data') := by
  obtain ⟨_, _, _, _, _, _, _, hNone⟩ := streams_of_rebuild name hFound hFound' hRebuild
  rw [hFound'.stream?_eq] at hNone ⊢
  cases hEntry : md'.root.stream? name with
  | some entry => exact ⟨_, rfl⟩
  | none =>
      have hSome := isSome_withLiterals pool (isSome_of_stream_eq_ok (stream_eq_ok.2 hStream))
      rw [hNone (by rw [hEntry, Option.map_none])] at hSome
      cases hSome

/-- The streams of rebuilt metadata are read like those of the old one. -/
theorem Streams.exists_ofMetadata_of_rebuild {s : Streams} {md md' : Metadata}
    {redirects : List Redirect} {pool pool' : LiteralPool} (hFound : md.FoundIn md.image)
    (hFound' : md'.FoundIn md'.image) (hRebuild : md.rebuild pool' redirects = .ok md'.block)
    (hRead : ofMetadata md = .ok s) (hPool : Module.literalPool md = .ok pool)
    (hGrows : pool.Grows pool') : ∃ s', ofMetadata md' = .ok s' := by
  obtain ⟨⟨source, hSource, hTables⟩, hNames, hStart, _⟩ := ofMetadata_eq_ok_iff.1 hRead
  have hTablesAgain : ∃ data tables, md'.stream? TableStream.streamName = .ok (some data) ∧
      TableStream.ofBytes data = .ok tables := by
    obtain ⟨_, _, tables, hSame, hSameTables, hRedirect, hSome, _⟩ :=
      Metadata.streams_of_rebuild TableStream.streamName hFound hFound' hRebuild
    cases hSource.symm.trans hSame
    cases hTables.symm.trans hSameTables
    obtain ⟨data, hData⟩ := Metadata.exists_stream_of_rebuild hFound hFound' hRebuild hSource
    obtain ⟨content, hPayload, rfl⟩ := hSome _ hData
    obtain rfl : content = tables := hPayload
    obtain ⟨start, hOld⟩ := TableStream.readFrom_of_ofBytes hTables
    obtain ⟨hAgree, hSize⟩ := agree_padTo content 4 (by decide)
    have hSameSize := (TableStream.redirect_eq_ok hRedirect).1.size_eq
    have hInside := hOld.start_le
    exact ⟨_, _, hData, hOld.ofBytes_congr hTables
      ((TableStream.agree_of_redirect hOld hRedirect).trans
        (hAgree.mono (Nat.le_refl _) (by omega))) (by omega)⟩
  have hNamesAgain : ∃ data, md'.stream? Identifiers.streamName = .ok (some data) ∧
      data[0]? = some 0 := by
    obtain ⟨_, _, _, _, _, _, hSome, _⟩ :=
      Metadata.streams_of_rebuild Identifiers.streamName hFound hFound' hRebuild
    obtain ⟨data, hData⟩ := Metadata.exists_stream_of_rebuild hFound hFound' hRebuild hNames
    obtain ⟨content, hPayload, rfl⟩ := hSome _ hData
    obtain ⟨old, hOld, rfl⟩ := hPayload
    cases hNames.symm.trans hOld
    exact ⟨_, hData, (agree_padTo s.names.data 4 (by decide)).1.head hStart⟩
  have hLiteralsAgain : ∃ heap : Option Bytes, md'.stream? Literals.streamName = .ok heap ∧
      ∀ data ∈ heap, data[0]? = some 0 := by
    obtain ⟨_, _, _, _, _, _, hSome, _⟩ :=
      Metadata.streams_of_rebuild Literals.streamName hFound hFound' hRebuild
    refine ⟨_, hFound'.stream?_eq _, fun data hData => ?_⟩
    obtain ⟨content, hPayload, rfl⟩ := hSome data (by rw [hFound'.stream?_eq, hData])
    obtain rfl : content = pool'.finish := hPayload
    obtain ⟨heap, _, hHeap⟩ := Except.bind_eq_ok.1 hPool
    have hPoolStart : pool.data[0]? = some 0 := by
      rw [(LiteralPool.sound_of_ofBytes hHeap).1]
      exact LiteralPool.started_of_ofBytes hHeap
    have hFinished := (agree_padTo pool'.data 4 (by decide)).1.head (hGrows.agree.head hPoolStart)
    exact (agree_padTo pool'.finish 4 (by decide)).1.head hFinished
  obtain ⟨data, tables, hData, hTablesData⟩ := hTablesAgain
  obtain ⟨names, hNameData, hNameStart⟩ := hNamesAgain
  obtain ⟨heap, hHeap, hHeapStart⟩ := hLiteralsAgain
  refine ⟨⟨tables, ⟨names⟩, heap.map Literals.mk⟩, ofMetadata_eq_ok_iff.2
    ⟨⟨data, hData, hTablesData⟩, hNameData, hNameStart, ?_, ?_⟩⟩
  · rw [hHeap]
    cases heap <;> rfl
  · simpa using hHeapStart

variable {image image' : Image} {s s' : Streams} {row : Nat} {r : Redirect} {pool : LiteralPool}

namespace MethodDef

/-- A method is loaded if its row and its name can be read, and its body as well if it has one. -/
theorem exists_load_iff : (∃ m, load image s row = .ok m) ↔
    ∃ columns name, s.tables.get MethodDefRow row = .ok columns ∧
      s.names.get columns.name = .ok name ∧
      (hasBody columns.rva columns.implFlags columns.flags = true →
        ∃ b, MethodBody.load image s columns.rva name row = .ok b) := by
  constructor
  · rintro ⟨m, hLoad⟩
    obtain ⟨columns, hFrom⟩ := loadedFrom_of_load hLoad
    refine ⟨columns, m.name, hFrom.columns_eq, hFrom.name_eq, fun hHas => ?_⟩
    obtain ⟨b, hBody, _⟩ := hFrom.body hHas
    exact ⟨b, hBody⟩
  · rintro ⟨columns, name, hColumns, hName, hBody⟩
    refine Except.exists_bind_eq_ok_iff.2 ⟨columns, hColumns,
      Except.exists_bind_eq_ok_iff.2 ⟨name, hName, ?_⟩⟩
    dsimp only
    split
    · obtain ⟨b, hLoad⟩ := hBody ‹_›
      exact ⟨_, Except.bind_eq_ok.2 ⟨some b, Except.map_eq_ok.2 ⟨b, hLoad, rfl⟩, rfl⟩⟩
    · exact ⟨_, rfl⟩

/-- A method that is not redirected is loaded again. -/
theorem exists_load {methods : MethodDef → Prop} {m : MethodDef}
    (hCarries : s.Carries s' [r] pool) (hKeeps : image.Keeps image' methods)
    (hMethod : methods m) (hOther : row ≠ r.row) (hLoad : load image s row = .ok m) :
    ∃ m', load image' s' row = .ok m' := by
  obtain ⟨columns, hFrom⟩ := loadedFrom_of_load hLoad
  have hColumns := hCarries.method hFrom.columns_eq
  rw [if_neg hOther] at hColumns
  refine exists_load_iff.2 ⟨columns, m.name, hColumns, hCarries.name _ _ hFrom.name_eq,
    fun hHas => ?_⟩
  obtain ⟨b, _, hBody⟩ := load_body_of_keeps hCarries hKeeps hMethod hFrom hHas m.name
  exact ⟨b, hBody⟩

end MethodDef

/-- Types are loaded again if all of their methods are. -/
theorem TypeDef.exists_loadAll {nested : List Nat} {rows : List TypeDefRow} {types : List TypeDef}
    (hCarries : s.Carries s' [r] pool) (hLoad : loadAll image s nested row rows = .ok types)
    (hMethods : ∀ t ∈ types, ∀ m ∈ t.methods, ∀ i, MethodDef.load image s i = .ok m →
      ∃ m', MethodDef.load image' s' i = .ok m') :
    ∃ types', loadAll image' s' nested row rows = .ok types' := by
  induction rows generalizing row types with
  | nil => exact ⟨[], rfl⟩
  | cons columns rest ih =>
      obtain ⟨t, others, rfl, hOthers, hNamespace, hName, _, _, hRows⟩ := loadAll_cons_eq_ok hLoad
      rw [List.forall_mem_cons] at hMethods
      obtain ⟨others', hOthers'⟩ := ih hOthers hMethods.2
      have hAgain : ∃ methods, (methodRows (s.tables.rows .methodDef) columns rest.head?).mapM
          (MethodDef.load image' s') = .ok methods := by
        refine Except.exists_mapM_eq_ok_iff.2 fun i hMem => ?_
        obtain ⟨m, hMethod, hOne⟩ := forall₂_mem_right (Except.mapM_eq_ok.1 hRows).flip hMem
        exact hMethods.1 m hMethod i hOne
      obtain ⟨methods, hAgain⟩ := hAgain
      rw [← hCarries.rows_eq] at hAgain
      exact ⟨_, Except.bind_eq_ok.2 ⟨methods, hAgain, Except.bind_eq_ok.2
        ⟨_, hCarries.name _ _ hNamespace, Except.bind_eq_ok.2 ⟨_, hCarries.name _ _ hName,
          Except.bind_eq_ok.2 ⟨others', hOthers', rfl⟩⟩⟩⟩⟩

namespace Module

variable {m : Module} {md md' : Metadata}

/-- A module is loaded from an image that keeps what another one was loaded from, if the method that
is redirected is loaded. -/
theorem exists_ofImage (hCarries : s.Carries s' [r] pool)
    (hKeeps : image.Keeps image' fun method => ∃ t ∈ m.types, method ∈ t.methods)
    (hLoad : m.LoadedFrom image md s) (hLocate : Metadata.locate image' = .ok md')
    (hStreams : Streams.ofMetadata md' = .ok s')
    (hRedirected : ∀ method, MethodDef.load image s r.row = .ok method →
      ∃ method', MethodDef.load image' s' r.row = .ok method') :
    ∃ m', ofImage image' = .ok m' := by
  obtain ⟨nested, rows, hNested, hRows, hTypes⟩ := hLoad.types
  rw [← hCarries.getAll_eq (by decide)] at hNested hRows
  have hMethods : ∀ t ∈ m.types, ∀ method ∈ t.methods, ∀ i,
      MethodDef.load image s i = .ok method →
        ∃ method', MethodDef.load image' s' i = .ok method' := by
    intro t hType method hMethod i hOne
    by_cases hSame : i = r.row
    · subst hSame
      exact hRedirected method hOne
    · exact MethodDef.exists_load hCarries hKeeps ⟨t, hType, hMethod⟩ hSame hOne
  obtain ⟨types, hTypes'⟩ := TypeDef.exists_loadAll hCarries hTypes hMethods
  have hRest : ∀ assembly, ∃ m', (do
      let nested ← s'.tables.getAll NestedClassRow
      let types ← s'.tables.getAll TypeDefRow
      let types ← TypeDef.loadAll image' s' (nested.map (·.nested)) 1 types
      return ⟨m.name, assembly, types, some image'⟩ : Except Fault Module) = .ok m' :=
    fun assembly => ⟨_, Except.bind_eq_ok.2 ⟨nested, hNested, Except.bind_eq_ok.2 ⟨rows, hRows,
      Except.bind_eq_ok.2 ⟨types, hTypes', rfl⟩⟩⟩⟩
  refine Except.exists_bind_eq_ok_iff.2 ⟨md', hLocate, Except.exists_bind_eq_ok_iff.2
    ⟨s', hStreams, Except.exists_bind_eq_ok_iff.2 ⟨m.name, hCarries.loadName hLoad.name, ?_⟩⟩⟩
  dsimp only
  rw [hCarries.rows_eq]
  split
  · exact hRest none
  · obtain ⟨a, hAssembly, _⟩ := hLoad.assembly ‹_›
    exact Except.exists_bind_eq_ok_iff.2 ⟨some a,
      Except.map_eq_ok.2 ⟨a, hCarries.loadAssembly hAssembly, rfl⟩, hRest (some a)⟩

end Module

end IlSplice
