import IlSplice.Proofs.Body.Locality
import IlSplice.Proofs.Code.Unchanged

/-! Bodies that are written as they were read. The code is kept byte for byte, and a clause loses no
more than a last field without a meaning. Reading and writing the result changes nothing more. -/

namespace IlSplice

namespace Clause

variable {clauses : List Clause}

/-- The clause with nothing in its last field where that is neither a filter nor a type. -/
def normal (c : Clause) : Clause :=
  { c with classOrFilter := if c.flags.isFilter || c.flags.isCatch then c.classOrFilter else 0 }

/-- A fat section has room for so many clauses, and none has room for more. -/
theorem encodeSection_of_le (hFew : clauses.length ≤ 699050) :
    ∃ bs, encodeSection clauses = .ok bs := by
  have hFat : 4 + clauses.length * Clause.size true < 0x1000000 := by
    rw [Clause.size, if_pos rfl]
    omega
  unfold encodeSection
  dsimp only
  rw [if_pos hFat]
  split <;> exact ⟨_, rfl⟩

/-- More clauses than that do not fit the three bytes of a size, whichever form is taken. -/
theorem encodeSection_of_lt (hMany : 699050 < clauses.length) :
    encodeSection clauses = .error (.tooManyClauses clauses.length) := by
  have hSmall : ¬ 4 + clauses.length * Clause.size false < 0x100 := by
    rw [Clause.size, if_neg (by decide)]
    omega
  have hFat : ¬ 4 + clauses.length * Clause.size true < 0x1000000 := by
    rw [Clause.size, if_pos rfl]
    omega
  unfold encodeSection
  dsimp only
  rw [if_neg (fun h => hSmall h.1), if_neg hFat]

end Clause

namespace Handler

variable {d : Decoded} {e : Encoded} {c : Clause} {h : Handler}

/-- Instructions are at the offsets that they were found at. -/
def Placed (d : Decoded) (e : Encoded) : Prop :=
  ∀ offset bound, d.instructionAt offset = .ok bound → e.offsetOf bound = .ok offset

theorem offsetOf_of_startAt (hPlaced : Placed d e) {offset : Nat} {handle : Handle}
    (hStart : startAt d offset = .ok handle) : e.offsetOf handle = .ok offset := by
  obtain ⟨bound, hAt, hSome⟩ := Except.bind_eq_ok.1 hStart
  split at hSome
  · cases hSome
    exact hPlaced _ _ hAt
  · cases hSome

/-- The end of a range is written back as well, also where it is the end of the code and belongs to
no instruction. -/
theorem offsetOf_of_endAt (hPlaced : Placed d e) {offset length : Nat} {bound : Option Handle}
    (hEnd : endAt d offset length = .ok bound) : e.offsetOf bound = .ok (offset + length) := by
  unfold endAt at hEnd
  split at hEnd
  · exact hPlaced _ _ hEnd
  · cases hEnd

/-- The last field is written back, unless it had no meaning: then it becomes zero. -/
theorem typeOrFilter_of_filterOf (hPlaced : Placed d e)
    (hFilter : filterOf d c = .ok h.filterStart)
    (hType : h.classToken = if c.flags.isCatch then some ⟨c.classOrFilter⟩ else none) :
    h.typeOrFilter e = .ok c.normal.classOrFilter.toNat := by
  unfold filterOf at hFilter
  unfold typeOrFilter Clause.normal
  split at hFilter
  · rename_i hIs
    obtain ⟨start, hStart, hFound⟩ := Except.map_eq_ok.1 hFilter
    rw [← hFound, hIs]
    exact offsetOf_of_startAt hPlaced hStart
  · rename_i hIs
    rw [← Except.ok.inj hFilter, hType]
    cases hCatch : c.flags.isCatch with
    | true => simp
    | false => simp [hIs]

/-- A handler is written as the clause that it was read from. -/
theorem toClause_of_ofClause (hPlaced : Placed d e) (hClause : ofClause d c = .ok h) :
    h.toClause e = .ok c.normal := by
  rw [ofClause_eq] at hClause
  obtain ⟨filter, hFilter, hClause⟩ := Except.bind_eq_ok.1 hClause
  obtain ⟨tryStart, hTryStart, hClause⟩ := Except.bind_eq_ok.1 hClause
  obtain ⟨tryEnd, hTryEnd, hClause⟩ := Except.bind_eq_ok.1 hClause
  obtain ⟨handlerStart, hHandlerStart, hClause⟩ := Except.bind_eq_ok.1 hClause
  obtain ⟨handlerEnd, hHandlerEnd, hClause⟩ := Except.bind_eq_ok.1 hClause
  cases hClause
  rw [toClause_eq]
  refine Except.bind_eq_ok.2 ⟨_, offsetOf_of_startAt hPlaced hTryStart,
    Except.bind_eq_ok.2 ⟨_, offsetOf_of_startAt hPlaced hHandlerStart,
    Except.bind_eq_ok.2 ⟨_, typeOrFilter_of_filterOf hPlaced hFilter rfl,
    Except.bind_eq_ok.2 ⟨_, offsetOf_of_endAt hPlaced hTryEnd,
    Except.bind_eq_ok.2 ⟨_, offsetOf_of_endAt hPlaced hHandlerEnd, ?_⟩⟩⟩⟩⟩
  rw [if_neg (by omega)]
  simp only [Nat.add_sub_cancel_left, UInt32.ofNat_toNat]
  rfl

/-- The field that is lost was not looked at. -/
theorem ofClause_normal (d : Decoded) (c : Clause) : ofClause d c.normal = ofClause d c := by
  rw [ofClause_eq, ofClause_eq, filterOf, filterOf, Clause.normal]
  cases c.flags.isFilter <;> cases c.flags.isCatch <;> rfl

end Handler

namespace MethodHeader

variable {codeSize : Nat} {maxStack : UInt16} {locals : Token} {initLocals more : Bool}

theorem encode_of_lt (hSize : codeSize < 0x100000000) (maxStack : UInt16) (locals : Token)
    (initLocals more : Bool) : ∃ bs, encode codeSize maxStack locals initLocals more = .ok bs := by
  unfold encode
  rw [if_pos hSize]
  split <;> exact ⟨_, rfl⟩

/-- With the stack that was read back the same header is written. -/
theorem encode_written_maxStack :
    encode codeSize (written codeSize maxStack locals initLocals more).maxStack locals initLocals
      more = encode codeSize maxStack locals initLocals more := by
  unfold written
  split
  · rename_i hTiny
    obtain ⟨hCode, hStack, hLocals, hInit, hMore⟩ := hTiny
    have hForm : ∀ n : UInt16, n ≤ tinyMaxStack →
        encode codeSize n locals initLocals more = .ok [UInt8.ofNat (codeSize * 4 + 2)] := by
      intro n hn
      rw [encode, if_pos ⟨hCode, hn, hLocals, by simp [hInit], by simp [hMore]⟩]
    rw [hForm _ (UInt16.le_refl _), hForm _ hStack]
  · rfl

/-- The field for the size has four bytes, so that all code that was read can be written. -/
theorem codeSize_lt_of_scan {data : Bytes} {start stop : Nat} {header : MethodHeader}
    (hScan : scan data start = .ok header stop) : header.codeSize < 0x100000000 := by
  obtain ⟨lead, _, hHeader, _⟩ := scan_eq_ok.1 hScan
  have hLead := lead.toNat_lt
  unfold scanFormat at hHeader
  split at hHeader
  · obtain ⟨_, _, _, hPure⟩ := Scan.bind_eq_ok hHeader
    obtain ⟨rfl, _⟩ := Scan.pure_eq_ok.1 hPure
    change lead.toNat / 4 < _
    omega
  split at hHeader
  · obtain ⟨flags, _, _, hHeader⟩ := Scan.bind_eq_ok hHeader
    obtain ⟨maxStack, _, _, hHeader⟩ := Scan.bind_eq_ok hHeader
    obtain ⟨codeSize, _, hCodeSize, hHeader⟩ := Scan.bind_eq_ok hHeader
    obtain ⟨locals, _, _, hHeader⟩ := Scan.bind_eq_ok hHeader
    dsimp only at hHeader
    split at hHeader
    · obtain ⟨rfl, _⟩ := Scan.pure_eq_ok.1 hHeader
      obtain ⟨_, _, rfl⟩ := Scan.uint_eq_ok hCodeSize
      exact Bytes.uintAt_lt ..
    · cases hHeader
  · cases hHeader

end MethodHeader

namespace MethodBody

variable {resolver : Resolver} {data : Bytes} {start stop : Nat} {b : MethodBody}

/-- Code that a header can describe is put together with any clauses that a section has room for. -/
theorem assemble_of_lt {code : Bytes} (hSize : code.size < 0x100000000) (maxStack : UInt16)
    (locals : Token) (initLocals : Bool) (clauses : List Clause) :
    (clauses.length ≤ 699050 →
      ∃ w, assemble code maxStack locals initLocals clauses = .ok w) ∧
    (699050 < clauses.length → assemble code maxStack locals initLocals clauses
      = .error (.tooManyClauses clauses.length)) := by
  obtain ⟨header, hHeader⟩ :=
    MethodHeader.encode_of_lt hSize maxStack locals initLocals (!clauses.isEmpty)
  unfold assemble
  rw [hHeader]
  dsimp only [bind, Except.bind]
  refine ⟨fun hFew => ?_, fun hMany => ?_⟩
  · obtain ⟨bytes, hBytes⟩ := Clause.encodeSection_of_le hFew
    rw [hBytes]
    split <;> exact ⟨_, rfl⟩
  · have hSome : ¬ clauses.isEmpty = true := by
      rw [List.isEmpty_iff]
      rintro rfl
      cases hMany
    rw [Clause.encodeSection_of_lt hMany, if_neg hSome]

/-- What a body that was read is put together from again, with this or another stack. -/
structure Source (b : MethodBody) (resolver : Resolver) (code : Bytes) (clauses : List Clause) :
    Prop where
  size_lt : code.size < 0x100000000
  flags_lt : ∀ c ∈ clauses, c.flags.bits.toNat < 8
  length_eq : clauses.length = b.handlers.length
  decoded : ∃ d, Decoded.ofCode code resolver = .ok d ∧ d.listing = b.listing ∧
    clauses.mapM (Handler.ofClause d) = .ok b.handlers
  encode_eq : ∀ (maxStack : UInt16) (σ : Type) (intern : Interner σ) (s : σ),
    encode { b with maxStack := maxStack } intern s
      = Edit.check (fun _ => assemble code maxStack b.locals b.initLocals clauses) s

/-- All parts of a body that matter for writing it again are read off in one place. -/
theorem source_of_scan (hScan : scan resolver data start = .ok b stop) :
    ∃ header middle code clauses, MethodHeader.scan data start = .ok header middle ∧
      code = data.extract middle (middle + header.codeSize) ∧ code.size = header.codeSize ∧
      b.Source resolver code clauses := by
  obtain ⟨header, middle, d, clauses, hHeader, hDecoded, hClauses, hHandlers, hBody⟩ :=
    scan_eq_ok hScan
  have hInside := (MethodHeader.scan_eq_ok.1 hHeader).choose_spec.2.2
  obtain ⟨code, hCode⟩ : ∃ code, code = data.extract middle (middle + header.codeSize) := ⟨_, rfl⟩
  rw [← hCode] at hDecoded
  have hSize : code.size = header.codeSize := by
    rw [hCode, Array.size_extract]
    omega
  have hLess : code.size < 0x100000000 := by
    rw [hSize]
    exact MethodHeader.codeSize_lt_of_scan hHeader
  obtain ⟨raws, hRenders⟩ := Decoded.renders_of_ofCode hDecoded
  have hPlaced : Handler.Placed d ⟨code, 0, (Decoded.layoutOf code raws).starts⟩ := by
    intro offset bound hAt
    cases bound with
    | none => rw [Encoded.offsetOf, (hRenders.at_end offset).1 hAt]
    | some handle => rw [Encoded.offsetOf, hRenders.starts_eq_some.2 hAt]
  have hEach := Except.mapM_eq_ok.1 hHandlers
  have hListing : d.listing = b.listing := by rw [hBody]
  refine ⟨header, middle, code, clauses.map Clause.normal, hHeader, hCode, hSize, hLess, ?_, ?_,
    ⟨d, hDecoded, hListing, ?_⟩, fun maxStack σ intern s => encode_of_parts
      (b := { b with maxStack := maxStack })
      (e := ⟨code, 0, (Decoded.layoutOf code raws).starts⟩) ?_ ?_⟩
  · rw [List.forall_mem_map]
    exact (scanClauses_congr hClauses hInside).2.2.1
  · rw [List.length_map, hEach.length_eq]
  · rw [Except.mapM_eq_ok, List.forall₂_map_left_iff]
    exact hEach.imp fun c h hClause => (Handler.ofClause_normal d c).trans hClause
  · rw [← hListing]
    exact hRenders.ofListing_eq hLess intern s
  · rw [Except.mapM_eq_ok, List.forall₂_map_right_iff]
    exact hEach.flip.imp fun h c hClause => Handler.toClause_of_ofClause hPlaced hClause

/-- A body that was only read is written with the same code, without a request for a token, unless
it has more clauses than a section has room for. What was written is read back as the body, but for
the stack of a tiny header, and writing that gives the same bytes again. -/
theorem encode_scan (hScan : scan resolver data start = .ok b stop) :
    ∃ header middle, MethodHeader.scan data start = .ok header middle ∧
      (699050 < b.handlers.length → ∀ (σ : Type) (intern : Interner σ) (s : σ),
        b.encode intern s = .error (.tooManyClauses b.handlers.length) s) ∧
      (b.handlers.length ≤ 699050 → ∃ w : Bytes,
        (∀ (σ : Type) (intern : Interner σ) (s : σ), b.encode intern s = .ok w s) ∧
        ∀ (other : Bytes) (place : Nat), other.Holds place w.toList →
          ∃ header' middle', MethodHeader.scan other place = .ok header' middle' ∧
            header'.codeSize = header.codeSize ∧
            other.extract middle' (middle' + header'.codeSize)
              = data.extract middle (middle + header.codeSize) ∧
            ∃ b', scan resolver other place = .ok b' (place + w.size) ∧
              b' = { b with maxStack := if header'.fat then b.maxStack else 8 } ∧
              ∀ (σ : Type) (intern : Interner σ) (s : σ), b'.encode intern s = .ok w s) := by
  obtain ⟨header, middle, code, clauses, hHeader, rfl, hSize, hLess, hFlags, hLength,
    ⟨d, hDecoded, hListing, hHandlers⟩, hEncode⟩ := source_of_scan hScan
  obtain ⟨hFew, hMany⟩ := assemble_of_lt hLess b.maxStack b.locals b.initLocals clauses
  rw [hLength] at hFew hMany
  refine ⟨header, middle, hHeader, fun hLong σ intern s => ?_, fun hShort => ?_⟩
  · exact (hEncode b.maxStack σ intern s).trans (Edit.check_eq_error.2 ⟨hMany hLong, rfl⟩)
  · obtain ⟨w, hAssemble⟩ := hFew hShort
    refine ⟨w, fun σ intern s => (hEncode b.maxStack σ intern s).trans
      (Edit.check_eq_ok.2 ⟨hAssemble, rfl⟩), fun other place hHolds => ?_⟩
    obtain ⟨middle', hScan', hCode, hBody⟩ :=
      scan_of_assemble hAssemble hFlags hDecoded hHandlers hHolds
    rw [hListing] at hBody
    refine ⟨_, middle', hScan', by rw [MethodHeader.written_codeSize, hSize], ?_, _, hBody, ?_,
      fun σ intern s => (hEncode _ σ intern s).trans (Edit.check_eq_ok.2 ⟨?_, rfl⟩)⟩
    · rw [MethodHeader.written_codeSize]
      have hExtract := hCode.extract
      rwa [Array.length_toList, Array.toArray_toList] at hExtract
    · rw [MethodHeader.written_maxStack]
      rfl
    · rw [← hAssemble, assemble, assemble, MethodHeader.encode_written_maxStack]

/-- Two sections with a clause each, and set bits wherever they have no meaning. -/
def chained : Bytes := #[
  0xEB, 0x3F, 1, 0, 5, 0, 0, 0, 0, 0, 0, 0, 0, 0, 0, 0, 0x2A, 0xFF, 0xFF, 0xFF,
  0xBD, 16, 0xFF, 0xFF, 0x0A, 0, 0, 0, 1, 1, 0, 1, 0x78, 0x56, 0x34, 0x12,
  0x7D, 28, 0, 0, 4, 0, 0xCD, 0xAB, 0, 0, 0, 0, 2, 0, 0, 0, 2, 0, 0, 0, 2, 0, 0, 0, 1, 0, 0, 0,
  0xFF, 0xFF]

/-- Two sections are written as one, and bits without a meaning are lost. -/
theorem encode_scan_chained : ∃ b stop w, scan (.ofLists [] []) chained 0 = .ok b stop ∧
    b.handlers.length = 2 ∧ b.encode Encoded.countLiterals 1 = .ok w 1 ∧
    ∃ b', scan (.ofLists [] []) w 0 = .ok b' w.size ∧ b'.handlers = b.handlers ∧
      b'.encode Encoded.countLiterals 1 = .ok w 1 := by
  have hRead : ((scan (.ofLists [] [])).evalAt chained 0).toOption.map (·.handlers.length)
      = some 2 := by decide +kernel
  obtain ⟨b, hSome, hTwo⟩ := Option.map_eq_some_iff.1 hRead
  obtain ⟨stop, hScan⟩ := Scan.evalAt_eq_ok.1 (Except.toOption_eq_some.1 hSome)
  obtain ⟨_, _, -, -, hWrite⟩ := encode_scan hScan
  obtain ⟨w, hEncode, hAgain⟩ := hWrite (by omega)
  obtain ⟨_, _, -, -, -, b', hScan', hSame, hEncode'⟩ :=
    hAgain w 0 (by simpa using Bytes.holds_middle #[] w.toList #[])
  rw [Nat.zero_add] at hScan'
  exact ⟨b, stop, w, hScan, hTwo, hEncode _ _ _, b', hScan', by rw [hSame], hEncode' _ _ _⟩

end MethodBody

end IlSplice
