import IlSplice.Proofs.Module.NewBody
import IlSplice.Proofs.Module.Write
import IlSplice.Proofs.Patch.Patched
import IlSplice.Proofs.Patch.Target

/-! A patched module, written to a file and loaded from it. The target has the new entries, and
everything else is what it was. -/

namespace IlSplice

open Bytes

/-- What one resolver knows is known to every one that extends it. -/
theorem Resolver.Extends.knows {r r' : Resolver} (hExtends : r.Extends r') {operand : Operand}
    (hKnows : r.Knows operand) : r'.Knows operand := by
  match operand with
  | .method callee => exact hExtends.method _ _ hKnows
  | .literal ⟨some t, text⟩ => exact hExtends.literal _ _ hKnows
  | .literal ⟨none, _⟩ | .none | .int8 _ | .uint8 _ | .uint16 _ | .int32 _ | .int64 _
  | .float32 _ | .float64 _ | .target _ | .switch _ | .token _ => trivial

namespace Patch

/-- The only operands of the stores that a resolver is asked for are the entries. -/
theorem operand_of_mem_storesFrom {index : Nat} {entries : List String} {i : Instruction}
    (hMem : i ∈ storesFrom index entries) :
    (∀ resolver : Resolver, resolver.Knows i.operand) ∧
      ∀ text, i.operand = .literal ⟨none, text⟩ → text ∈ entries := by
  obtain ⟨⟨entry, k⟩, hEntry, hStore⟩ := List.mem_flatMap.1 hMem
  simp only [store, List.mem_cons, List.not_mem_nil, or_false] at hStore
  rcases hStore with rfl | rfl | rfl | rfl
  · exact ⟨fun _ => trivial, by simp [Instruction.plain]⟩
  · exact ⟨fun _ => trivial, by simp [Instruction.loadInt]⟩
  · refine ⟨fun _ => trivial, fun text hText => ?_⟩
    cases hText
    exact List.fst_mem_of_mem_zipIdx hEntry
  · exact ⟨fun _ => trivial, by simp [Instruction.plain]⟩

/-- The operands of a patched body are those of the first one, and the entries. -/
theorem Plan.Applied.operands {p : Plan} {b b' : MethodBody} {previous : Int32} {position : Nat}
    (hApplied : p.Applied b b' previous position) {resolver : Resolver}
    (hKnows : ∀ i ∈ b.listing.slots, resolver.Knows i.operand ∧
      ∀ text, i.operand ≠ .literal ⟨none, text⟩) :
    ∀ entry ∈ b'.listing.entries, resolver.Knows entry.2.operand ∧
      ∀ text, entry.2.operand = .literal ⟨none, text⟩ → text ∈ p.entries := by
  rintro ⟨h, i⟩ hMem
  have hSlot := Array.mem_of_getElem? (Listing.mem_entries.1 hMem)
  rw [hApplied.spliced.slots, Array.mem_append] at hSlot
  rcases hSlot with hOld | hNew
  · rcases Array.mem_or_eq_of_mem_setIfInBounds hOld with hOld | rfl
    · exact ⟨(hKnows i hOld).1, fun text hText => ((hKnows i hOld).2 text hText).elim⟩
    · exact ⟨trivial, by simp [Instruction.loadInt]⟩
  · obtain ⟨hKnown, hText⟩ := operand_of_mem_storesFrom (by simpa using hNew)
    exact ⟨hKnown resolver, hText⟩

/-- Every entry is an operand of the patched body. -/
theorem Plan.Applied.exists_operand {p : Plan} {b b' : MethodBody} {previous : Int32}
    {position : Nat} (hApplied : p.Applied b b' previous position) {text : String}
    (hText : text ∈ p.entries) :
    ∃ entry ∈ b'.listing.entries, entry.2.operand = .literal ⟨none, text⟩ := by
  obtain ⟨k, hk⟩ := List.getElem?_of_mem hText
  have hIndexed : (p.entries.zipIdx 1)[k]? = some (text, 1 + k) := by
    rw [List.getElem?_zipIdx, hk, Option.map_some]
  have hStore : Instruction.loadText text ∈ storesFrom 1 p.entries :=
    List.mem_flatMap.2 ⟨_, List.mem_of_getElem? hIndexed, by simp [store]⟩
  have hSlot : Instruction.loadText text ∈ b'.listing.slots := by
    rw [hApplied.spliced.slots, Array.mem_append]
    exact .inr (by simpa using hStore)
  obtain ⟨h, hh⟩ := Array.getElem?_of_mem hSlot
  exact ⟨(h, Instruction.loadText text), Listing.mem_entries.2 hh, rfl⟩

/-- A heap that holds no text grows exactly if there is an entry. -/
theorem Plan.Applied.added_pos_iff {p : Plan} {b b' : MethodBody} {previous : Int32}
    {position start stop : Nat} {resolver : Resolver} {data code : Bytes} {pool pool' : LiteralPool}
    (hApplied : p.Applied b b' previous position)
    (hScan : MethodBody.scan resolver data start = .ok b stop) (hNothing : pool.known = [])
    (hStart : pool.added = 0) (hEncode : b'.encode LiteralPool.intern pool = .ok code pool') :
    0 < pool'.added ↔ p.entries ≠ [] := by
  obtain ⟨_, _, hWell, hKnows, _⟩ := MethodBody.scan_congr hScan
  rw [← hApplied.handlers_eq] at hWell
  obtain ⟨_, _, _, _, _, hIntern, _⟩ := MethodBody.scan_of_encode hWell hEncode
  rw [LiteralPool.added_pos_iff_of_internAll hNothing hStart hIntern]
  constructor
  · rintro ⟨entry, hMem, text, hText⟩
    exact List.ne_nil_of_mem ((hApplied.operands hKnows entry hMem).2 text hText)
  · intro hEntries
    obtain ⟨text, hMem⟩ := List.exists_mem_of_ne_nil _ hEntries
    obtain ⟨entry, hEntry, hText⟩ := hApplied.exists_operand hMem
    exact ⟨entry, hEntry, text, hText⟩

/-- The changed body is written so that it is read back as a patched one, by every resolver that
finds what the old one found and the literals of the pool. -/
theorem Plan.Applied.read_encoded {config : Config} {anchors : Anchors} {outcome : Outcome}
    {b b' : MethodBody} {previous : Int32} {position start stop : Nat} {resolver : Resolver}
    {data code : Bytes} {pool pool' : LiteralPool}
    (hApplied : (Plan.mk config.entries anchors).Applied b b' previous position)
    (hOutcome : outcome = ⟨previous, Int32.ofNat (config.entries.length + 1),
      4 * config.entries.length, b'.maxStack⟩)
    (hLocated :
      Anchors.locate b.listing config.injectionMember config.sizeMember = .ok anchors)
    (hScan : MethodBody.scan resolver data start = .ok b stop) (hSound : pool.Sound)
    (hReaches : ∀ entry ∈ config.entries, pool.Reaches entry)
    (hEncode : b'.encode LiteralPool.intern pool = .ok code pool') :
    pool'.Sound ∧ pool.Grows pool' ∧ ∀ resolver' : Resolver, resolver.Extends resolver' →
      (∀ t text, t.table = Token.literalTable → (Text.units text, t.row) ∈ pool'.known →
        resolver'.literal t = .ok text) →
      ∀ (out : Bytes) (first : Nat), out.Holds first code.toList →
        ∃ again last, MethodBody.scan resolver' out first = .ok again last ∧
          Patched config outcome anchors position b again := by
  obtain ⟨_, _, hWell, hKnows, _⟩ := MethodBody.scan_congr hScan
  have hClosed := MethodBody.closed_of_scan hScan
  have hOperands := hApplied.operands hKnows
  rw [← hApplied.handlers_eq] at hWell
  obtain ⟨e, l, long, interned, _, hIntern, hRenders, _, hRead⟩ :=
    MethodBody.scan_of_encode hWell hEncode
  obtain ⟨hSound', hGrows, hFinds⟩ := LiteralPool.knows_of_internAll hSound
    (fun entry hMem text hText => hReaches text ((hOperands entry hMem).2 text hText)) hIntern
  refine ⟨hSound', hGrows, fun resolver' hExtends hLiterals out first hHolds => ?_⟩
  have hKnown := hFinds resolver' (fun entry hMem => hExtends.knows (hOperands entry hMem).1)
    hLiterals
  refine ⟨_, _, (hRead resolver' hKnown out first hHolds).2, ?_⟩
  refine hApplied.patched hOutcome hLocated hClosed (fun i hMem => (hKnows i hMem).2)
    hRenders.readAs (LongForms.ofShort_of_settle hRenders.settled (LongForms.ofShort_none _)) rfl
    rfl rfl ⟨MethodHeader.le_written_maxStack, ?_⟩
  rw [MethodBody.rewritten, MethodHeader.written_maxStack]
  split
  · exact .inl rfl
  · exact .inr rfl

end Patch

namespace Module

open Patch

/-- A method that was loaded, with its row. -/
theorem LoadedFrom.row_of_mem {image : Image} {md : Metadata} {s : Streams} {m : Module}
    (hLoad : m.LoadedFrom image md s) {t : TypeDef} (hType : t ∈ m.types) {method : MethodDef}
    (hMethod : method ∈ t.methods) : s.tables.rows .methodDef ≤ TableStream.maxRows ∧
      method.token = Token.ofParts Token.methodDefTable method.token.row ∧
      MethodDef.load image s method.token.row = .ok method ∧ method.modified = false := by
  have hRows := hLoad.rows_le .methodDef
  obtain ⟨nested, rows, _, _, hTypes⟩ := hLoad.types
  obtain ⟨i, hOne⟩ := TypeDef.load_of_mem_loadAll hTypes hType hMethod
  obtain ⟨columns, hFrom⟩ := MethodDef.loadedFrom_of_load hOne
  rw [hFrom.row_token hRows]
  exact ⟨hRows, hFrom.token_eq, hOne, hFrom.modified_eq⟩

/-- A file is loaded, patched and written. The parts of it that are brought up to date in place lie
apart, also from what decides where everything is, no body lies in them, and a token has room for
the offset of every entry that the heap holds. -/
structure Writes (config : Config) (data out : Bytes) (m m' : Module) (report : Report)
    (md : Metadata) (p : Placement) (pool : LiteralPool) : Prop where
  load : ofBytes data = .ok m
  image : m.image = some md.image
  metadata : Metadata.locate md.image = .ok md
  placement : Placement.of md.image = .ok p
  literals : literalPool md = .ok pool
  clear : Clear md p
  bodies : ∀ t ∈ m.types, ∀ method ∈ t.methods, ∀ span, method.Occupies md.image span →
    ∀ u ∈ md.updated p, u.Apart span
  reaches : ∀ entry ∈ config.entries, pool.Reaches entry
  patch : patch config m = .ok report m'
  write : m'.toBytes = .ok out

/-- What stands in the new file. The target has the patched body, and can be read wherever the
literals are found that were added for it. -/
theorem Writes.steps {config : Config} {data out : Bytes} {m m' : Module} {report : Report}
    {md : Metadata} {p : Placement} {pool : LiteralPool}
    (h : Writes config data out m m' report md p pool) :
    ∃ (target : Target) (anchors : Anchors) (position : Nat) (s : Streams) (r : Redirect)
      (pool' : LiteralPool) (code block : Bytes) (rva size : UInt32), target.FoundIn config m ∧
      report = ⟨target.type.fullName, target.method.name, target.method.token, report.outcome⟩ ∧
      target.method.token = Token.ofParts Token.methodDefTable r.row ∧
      MethodDef.load md.image s r.row = .ok target.method ∧
      m.WrittenWith md p s r pool pool' code block rva size out ∧
      (md.root.stream? Literals.streamName = none →
        (0 < pool'.added ↔ config.entries ≠ [])) ∧
      ∀ resolver : Resolver, s.resolver.Extends resolver →
        (∀ t text, t.table = Token.literalTable → (Text.units text, t.row) ∈ pool'.known →
          resolver.literal t = .ok text) →
        ∃ again last, MethodBody.scan resolver out p.offset = .ok again last ∧
          Patched config report.outcome anchors position target.body again := by
  obtain ⟨hLoad, hImage, hMd, hPlace, hPool, hClear, hBodies, hReaches, hPatch, hWrite⟩ := h
  obtain ⟨image, hRead, hOfImage⟩ := Except.bind_eq_ok.1 hLoad
  obtain ⟨md₀, s, hFrom⟩ := loadedFrom_of_ofImage hOfImage
  obtain rfl := Option.some.inj (hFrom.image_eq.symm.trans hImage)
  obtain rfl := Except.ok.inj (hMd.symm.trans hFrom.metadata)
  have hReadFrom := Image.ofBytes_eq_ok.1 hRead
  rw [← hReadFrom.data_eq] at hReadFrom
  have hFound := Metadata.foundIn_of_locate hMd
  have hPlaced := Placement.foundIn_of_of hPlace
  obtain ⟨target, anchors, outcome, body, hTarget, hLocated, hApply, rfl, rfl⟩ :=
    patch_eq_ok hPatch
  obtain ⟨previous, position, hApplied, hOutcome⟩ := Plan.applied_of_apply hApply
  have hType := List.mem_of_getElem? hTarget.type_eq
  obtain ⟨_, hToken, hLoadTarget, _⟩ :=
    hFrom.row_of_mem hType (List.mem_of_getElem? hTarget.method_eq)
  obtain ⟨columns, hTargetFrom⟩ := MethodDef.loadedFrom_of_load hLoadTarget
  obtain ⟨_, start, stop, _, _, hScan⟩ := hTargetFrom.scan_body hTarget.body_eq
  have hModified := modifiedMethods_setMethod (target.changed body)
    (fun t hMem method hMethod => (hFrom.row_of_mem hMem hMethod).2.2.2) hTarget.type_eq
    (List.getElem?_eq_some_iff.1 hTarget.method_eq).1 rfl
  rw [toBytes_of_modified (show (m.setMethod _ _ _).image = _ from hFrom.image_eq) hModified]
    at hWrite
  obtain ⟨md₁, p₁, pool₁, pool', code, address, rva, size, block, data', hMd₁, hPlace₁, hPool₁,
    hEncode, hAddress, hRebuild, hRva, hSize, hAppend, hRedirect⟩ := replaceBodies_eq_ok rfl hWrite
  obtain rfl := Except.ok.inj (hMd.symm.trans hMd₁)
  obtain rfl := Except.ok.inj (hPlace.symm.trans hPlace₁)
  obtain rfl := Except.ok.inj (hPool.symm.trans hPool₁)
  obtain ⟨heap, _, hHeap⟩ := Except.bind_eq_ok.1 hPool
  obtain ⟨_, _, hSound⟩ := LiteralPool.sound_of_ofBytes hHeap
  obtain ⟨hSound', hGrows, hReadBack⟩ :=
    hApplied.read_encoded hOutcome hLocated hScan hSound hReaches hEncode
  have hAdded : md.root.stream? Literals.streamName = none →
      (0 < pool'.added ↔ config.entries ≠ []) := by
    intro hNone
    rw [literalPool, Metadata.stream?, hNone] at hPool
    obtain rfl := Except.ok.inj (LiteralPool.ofBytes_started.symm.trans hPool)
    exact hApplied.added_pos_iff hScan rfl rfl hEncode
  have hNew : m.WrittenWith md p s ⟨target.method.token.row, address⟩ pool pool' code block rva size
      out := {
    readFrom := hReadFrom
    loaded := hFrom
    placed := hPlaced
    clear := hClear
    bodies := hBodies
    literals := hPool
    sound := hSound'
    grows := hGrows
    row_le := Nat.le_of_lt_succ target.method.token.row_lt
    address_eq := word_eq_ok hAddress
    rebuild := hRebuild
    rewritten := rewritten_of_append hReadFrom hFound hPlaced hClear hAppend hRedirect
    rva_eq := word_eq_ok hRva
    size_eq := word_eq_ok hSize }
  exact ⟨target, anchors, position, s, ⟨target.method.token.row, address⟩, pool', code, block, rva,
    size, hTarget, rfl, hToken, hLoadTarget, hNew, hAdded,
    fun resolver hExtends hLiterals => hReadBack resolver hExtends hLiterals out p.offset
      hNew.code_held⟩

/-- A file is loaded, patched, written and loaded again. The parts of it that are brought up to date
in place lie apart, and no body lies in them. -/
structure Reloads (config : Config) (data out : Bytes) (m m' again : Module) (report : Report)
    (md : Metadata) (p : Placement) (pool : LiteralPool) : Prop where
  load : ofBytes data = .ok m
  image : m.image = some md.image
  metadata : Metadata.locate md.image = .ok md
  placement : Placement.of md.image = .ok p
  literals : literalPool md = .ok pool
  apart : (md.updated p).Pairwise Span.Apart
  bodies : ∀ t ∈ m.types, ∀ method ∈ t.methods, ∀ span, method.Occupies md.image span →
    ∀ u ∈ md.updated p, u.Apart span
  patch : patch config m = .ok report m'
  write : m'.toBytes = .ok out
  reload : ofBytes out = .ok again

theorem Reloads.writes {config : Config} {data out : Bytes} {m m' again : Module} {report : Report}
    {md : Metadata} {p : Placement} {pool : LiteralPool}
    (h : Reloads config data out m m' again report md p pool)
    (hGuides : ∀ u ∈ md.updated p, ∀ g ∈ md.image.guides, u.Apart g)
    (hReaches : ∀ entry ∈ config.entries, pool.Reaches entry) :
    Writes config data out m m' report md p pool :=
  ⟨h.load, h.image, h.metadata, h.placement, h.literals, ⟨h.apart, hGuides⟩, h.bodies, hReaches,
    h.patch, h.write⟩

/-- A patched module, written and loaded again, is the same module with the patched body. Entries
that stand in the heap beyond all tokens are left out: such an entry is given the token of another
place (`LiteralPool.row_of_not_reaches`), and so another text may be read back for it. -/
theorem reload_patched {config : Config} {data out : Bytes} {m m' again : Module} {report : Report}
    {md : Metadata} {p : Placement} {pool : LiteralPool}
    (h : Reloads config data out m m' again report md p pool)
    (hGuides : ∀ u ∈ md.updated p, ∀ g ∈ md.image.guides, u.Apart g)
    (hReaches : ∀ entry ∈ config.entries, pool.Reaches entry) :
    ∃ (target : Target) (anchors : Anchors) (position : Nat), target.FoundIn config m ∧
      report = ⟨target.type.fullName, target.method.name, target.method.token, report.outcome⟩ ∧
      m.Becomes report.token (Patched config report.outcome anchors position) again := by
  obtain ⟨target, anchors, position, s, r, pool', code, block, rva, size, hTarget, hReport, hToken,
    hLoadTarget, hNew, _, hReadBack⟩ := (h.writes hGuides hReaches).steps
  refine ⟨target, anchors, position, hTarget, hReport, ?_⟩
  obtain ⟨image', hRead, hOfImage⟩ := Except.bind_eq_ok.1 h.reload
  obtain ⟨md', s', hFrom⟩ := loadedFrom_of_ofImage hOfImage
  have hFound := Metadata.foundIn_of_locate hFrom.metadata
  obtain rfl := hFound.image_eq
  have hReadFrom := Image.ofBytes_eq_ok.1 hRead
  have hCarries := hNew.carries hFound hReadFrom hFrom.streams
  rw [(congrArg Report.token hReport).trans hToken]
  refine becomes_of_loadedFrom hCarries (hNew.keeps hReadFrom) (hNew.loaded.rows_le .methodDef)
    hNew.row_le hNew.loaded hFrom fun method method' hOne hOne' => ?_
  obtain rfl := Except.ok.inj (hLoadTarget.symm.trans hOne)
  obtain ⟨columns, hOld⟩ := MethodDef.loadedFrom_of_load hLoadTarget
  obtain ⟨columns', hLoaded⟩ := MethodDef.loadedFrom_of_load hOne'
  have hColumns := hCarries.method hOld.columns_eq
  rw [if_pos rfl] at hColumns
  obtain rfl := Except.ok.inj (hColumns.symm.trans hLoaded.columns_eq)
  have hHas := MethodDef.hasBody_of_pos (hOld.scan_body hTarget.body_eq).1
    (hNew.address_eq ▸ hNew.placed.rva_pos hNew.found)
  obtain ⟨again, hAgain, hSomeAgain⟩ := hLoaded.body hHas
  obtain ⟨first, last, hFirst, _, hScan⟩ := (MethodBody.load_eq_ok _ _).1 hAgain
  obtain ⟨again', last', hScanAgain, hPatched⟩ :=
    hReadBack s'.resolver hCarries.resolver_extends hCarries.added
  rw [hNew.offset_eq hReadFrom hFirst, hReadFrom.data_eq, hScanAgain] at hScan
  cases hScan
  exact ⟨target.body, again, hTarget.body_eq, hSomeAgain, hPatched⟩

/-- No body starts in front of the end of anything that is brought up to date. -/
def standsBehind (m : Module) (md : Metadata) (p : Placement) : Bool :=
  m.types.all fun t => t.methods.all fun method =>
    match md.image.offsetOf method.rva.toNat with
    | .ok start => (md.updated p).all (·.stop ≤ start)
    | .error _ => true

/-- A body takes bytes from its start on only, so that it is enough to look at where it starts. -/
theorem apart_of_standsBehind {m : Module} {md : Metadata} {p : Placement}
    (hBehind : m.standsBehind md p = true) : ∀ t ∈ m.types, ∀ method ∈ t.methods, ∀ span,
      method.Occupies md.image span → ∀ u ∈ md.updated p, u.Apart span := by
  intro t hType method hMethod span hOccupies u hUpdated
  simp only [standsBehind, List.all_eq_true] at hBehind
  have hStop := hBehind t hType method hMethod
  rw [hOccupies.2.1] at hStop
  simp only [List.all_eq_true, decide_eq_true_eq] at hStop
  exact .inl (hStop u hUpdated)

/-- Does with a file what `Reloads` says, and tests what came of it. Bodies stand behind all that is
brought up to date. -/
def trial (config : Config) (data : Bytes)
    (test : Metadata → Placement → LiteralPool → Module → Bool) : Except Fault Bool := do
  let image ← Image.ofBytes data
  let m ← ofImage image
  let md ← Metadata.locate image
  let p ← Placement.of image
  let pool ← literalPool md
  match patch config m with
  | .error fault _ => .error fault
  | .ok _ m' =>
    let out ← m'.toBytes
    let again ← ofBytes out
    return decide ((md.updated p).Pairwise Span.Apart) && m.standsBehind md p
      && decide (m.types.flatMap fun t => t.methods.map (·.token)).Nodup && test md p pool again

/-- One evaluation decides all that is asked of a run on a fixed file. -/
theorem reloads_of_trial {config : Config} {data : Bytes}
    {test : Metadata → Placement → LiteralPool → Module → Bool}
    (hTrial : (trial config data test).toOption = some true) :
    ∃ out m m' again report md p pool, Reloads config data out m m' again report md p pool ∧
      (m.types.flatMap fun t => t.methods.map (·.token)).Nodup ∧ test md p pool again = true := by
  obtain ⟨image, hRead, hOk⟩ := Except.bind_eq_ok.1 (Except.toOption_eq_some.1 hTrial)
  obtain ⟨m, hLoad, hOk⟩ := Except.bind_eq_ok.1 hOk
  obtain ⟨md, hMd, hOk⟩ := Except.bind_eq_ok.1 hOk
  obtain ⟨p, hPlace, hOk⟩ := Except.bind_eq_ok.1 hOk
  obtain ⟨pool, hPool, hOk⟩ := Except.bind_eq_ok.1 hOk
  split at hOk
  · cases hOk
  rename_i report m' hPatch
  obtain ⟨out, hWrite, hOk⟩ := Except.bind_eq_ok.1 hOk
  obtain ⟨again, hReload, hOk⟩ := Except.bind_eq_ok.1 hOk
  have hTests := Except.ok.inj hOk
  simp only [Bool.and_eq_true, decide_eq_true_eq] at hTests
  obtain ⟨⟨⟨hApart, hBehind⟩, hDistinct⟩, hTest⟩ := hTests
  obtain ⟨_, _, hFrom⟩ := loadedFrom_of_ofImage hLoad
  obtain rfl := (Metadata.foundIn_of_locate hMd).image_eq
  exact ⟨out, m, m', again, report, md, p, pool, ⟨Except.bind_eq_ok.2 ⟨_, hRead, hLoad⟩,
    hFrom.image_eq, hMd, hPlace, hPool, hApart, apart_of_standsBehind hBehind, hPatch, hWrite,
    hReload⟩, hDistinct, hTest⟩

/-- Headers up to the end of the CLI directory. -/
def sampleHeaders (sections optionalSize offset cliRva : Nat) : List UInt8 :=
  [[0x4D, 0x5A], .replicate 58 0, leBytes 4 0x40,
    leBytes 4 0x4550, leBytes 2 0x14C, leBytes 2 sections, .replicate 12 0,
    leBytes 2 optionalSize, leBytes 2 0x2102,
    leBytes 2 0x10B, .replicate 30 0, leBytes 4 8, leBytes 4 8, .replicate 20 0, leBytes 4 offset,
    .replicate 28 0, leBytes 4 15, .replicate 112 0, leBytes 4 cliRva, leBytes 4 72].flatten

/-- A CLI header, and behind it the body of a method: `call A`, `ldc.i4.2`, `ret`. -/
def sampleCode (metadataRva : Nat) : List UInt8 :=
  [leBytes 4 72, leBytes 2 2, leBytes 2 5, leBytes 4 metadataRva, leBytes 4 120, leBytes 4 1,
    .replicate 52 0, [0x1E, 0x28, 1, 0, 0, 6, 0x18, 0x2A]].flatten

/-- The metadata of a type `A` with one method `A`. -/
def sampleMetadata (rva : Nat) : List UInt8 :=
  [leBytes 4 Root.magic, leBytes 2 1, leBytes 2 1, leBytes 4 0, leBytes 4 4, [0x76, 0, 0, 0],
    leBytes 2 0, leBytes 2 2, leBytes 4 56, leBytes 4 60, [0x23, 0x7E, 0, 0], leBytes 4 116,
    leBytes 4 4, [0x23, 0x53, 0x74, 0x72, 0x69, 0x6E, 0x67, 0x73, 0, 0, 0, 0],
    leBytes 4 0, [2, 0, 0, 1], leBytes 8 0x44, leBytes 8 0, leBytes 4 1, leBytes 4 1,
    leBytes 4 1, leBytes 2 1, leBytes 4 0, leBytes 2 1, leBytes 2 1,
    leBytes 4 rva, leBytes 4 0, leBytes 2 1, leBytes 2 0, leBytes 2 1, [0, 0x41, 0, 0]].flatten

/-- A file with one section in use. Its entry ends the section table, and room for one more entry
follows. -/
def sampleFile (sections optionalSize offset address : Nat) (name rest : List UInt8) : Bytes :=
  let size := leBytes 4 (200 + rest.length)
  [sampleHeaders sections optionalSize offset address, name, size, leBytes 4 address, size,
    leBytes 4 offset, .replicate 56 0, sampleCode (address + 80), sampleMetadata (address + 72),
    rest].flatten.toArray

/-- A method that calls itself. -/
def selfCall : Bytes :=
  sampleFile 1 216 384 384 [0x2E, 0x74, 0x65, 0x78, 0x74, 0, 0, 0] []

def sampleConfig : Config := ⟨"A", "A", "A", "A", ["A"]⟩

/-- The file in which a method calls itself meets all conditions. -/
theorem trial_selfCall : (trial sampleConfig selfCall fun md p pool _ =>
    decide (∀ u ∈ md.updated p, ∀ g ∈ md.image.guides, u.Apart g) &&
      decide (∀ entry ∈ sampleConfig.entries, pool.Reaches entry)).toOption = some true := by
  unfold trial ofBytes ofImage toBytes replaceBodies literalPool Streams.ofMetadata
    Placement.append Metadata.rebuild Metadata.stream Metadata.stream? Metadata.locate Image.slice
    Bytes.slice
  simp only [resize_eq_toArray, append_eq_toArray, extract_eq_toArray]
  decide +kernel

theorem reload_patched_selfCall : ∃ out m m' again report md p pool,
    Reloads sampleConfig selfCall out m m' again report md p pool ∧
      (∀ u ∈ md.updated p, ∀ g ∈ md.image.guides, u.Apart g) ∧
      (∀ entry ∈ sampleConfig.entries, pool.Reaches entry) ∧
      ∃ (target : Target) (anchors : Anchors) (position : Nat),
        target.FoundIn sampleConfig m ∧
        report = ⟨target.type.fullName, target.method.name, target.method.token, report.outcome⟩ ∧
        m.Becomes report.token (Patched sampleConfig report.outcome anchors position) again := by
  obtain ⟨out, m, m', again, report, md, p, pool, hReloads, _, hTests⟩ :=
    reloads_of_trial trial_selfCall
  rw [Bool.and_eq_true, decide_eq_true_eq, decide_eq_true_eq] at hTests
  exact ⟨out, m, m', again, report, md, p, pool, hReloads, hTests.1, hTests.2,
    reload_patched hReloads hTests.1 hTests.2⟩

/-- The size of the image is also that of the first section here. When it grows, all addresses of
the other section are in the first one, where another CLI header stands. -/
def overlapping : Bytes := sampleFile 5 48 376 952 [] (sampleCode 832)

/-- The run goes through to its end, but no method has a store afterwards. -/
theorem trial_overlapping : (trial sampleConfig overlapping fun _ _ _ again =>
    again.types.all fun t => t.methods.all fun method => method.body.all fun b =>
      b.listing.slots.all (· ≠ .plain .dup)).toOption = some true := by
  unfold trial ofBytes ofImage toBytes replaceBodies literalPool Streams.ofMetadata
    Placement.append Metadata.rebuild Metadata.stream Metadata.stream? Metadata.locate Image.slice
    Bytes.slice
  simp only [resize_eq_toArray, append_eq_toArray, extract_eq_toArray]
  decide +kernel

/-- It is not enough that the updated parts lie apart, and apart from the bodies. In this file one
of them lies over an entry of the section table, which the loader goes by. -/
theorem not_reload_patched_of_apart :
    ¬ ∀ (config : Config) (data out : Bytes) (m m' again : Module) (report : Report)
      (md : Metadata) (p : Placement) (pool : LiteralPool),
      Reloads config data out m m' again report md p pool →
      (m.types.flatMap fun t => t.methods.map (·.token)).Nodup →
      ∃ (target : Target) (anchors : Anchors) (position : Nat), target.FoundIn config m ∧
        report = ⟨target.type.fullName, target.method.name, target.method.token, report.outcome⟩ ∧
        m.Becomes report.token (Patched config report.outcome anchors position) again := by
  intro hAll
  obtain ⟨out, m, m', again, report, md, p, pool, hReloads, hDistinct, hTest⟩ :=
    reloads_of_trial trial_overlapping
  obtain ⟨target, anchors, position, hTarget, hReport, hBecomes⟩ :=
    hAll _ _ _ _ _ _ _ _ _ _ hReloads hDistinct
  obtain ⟨t, hType, method, hMethod, b, b', _, hBody, hPatched⟩ :=
    hBecomes.exists_rewritten (List.mem_of_getElem? hTarget.type_eq)
      (List.mem_of_getElem? hTarget.method_eq) (congrArg Report.token hReport).symm
  obtain ⟨_, hDup, _⟩ := hPatched.stored 0 "A" rfl
  -- The module that was loaded in the end has no new instruction at all.
  simp only [List.all_eq_true, Option.all_eq_true, Array.all_eq_true', decide_eq_true_eq] at hTest
  exact hTest t hType method hMethod b' hBody _ (Array.mem_of_getElem? hDup) rfl

end Module

end IlSplice
