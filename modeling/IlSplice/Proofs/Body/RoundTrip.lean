import IlSplice.Proofs.Body.Clause
import IlSplice.Proofs.Body.ControlFlow
import IlSplice.Proofs.Body.Header
import IlSplice.Proofs.Code.RoundTrip

/-! Reading a method body undoes writing it, whatever follows the body. Handlers come back with
every bound at the position that it had. -/

namespace IlSplice

namespace Handler

/-- The flags have a meaning, and say whether there is a filter or a type that is caught. -/
structure WellFormed (h : Handler) : Prop where
  flags_lt : h.flags.bits.toNat < 8
  filter : h.filterStart.isSome = h.flags.isFilter
  catch_type : h.classToken.isSome = h.flags.isCatch

/-- The handler with other instructions for its bounds. -/
def relocate (h : Handler) (position : Handle → Handle) : Handler where
  flags := h.flags
  tryStart := position h.tryStart
  tryEnd := h.tryEnd.map position
  handlerStart := position h.handlerStart
  handlerEnd := h.handlerEnd.map position
  filterStart := h.filterStart.map position
  classToken := h.classToken

end Handler

namespace Encoded

variable {e : Encoded} {listing : Listing} {l : Layout} {long : LongForms}
  {interned : List (Handle × Instruction)} {offset : Nat}

/-- Where a handler starts is found again at the offset that was written, as the position of the
same instruction. -/
theorem Renders.start_of_offsetOf (h : e.Renders listing l long interned) {handle : Handle}
    (hOffset : e.offsetOf (some handle) = .ok offset) :
    handle < listing.slots.size ∧ offset < e.code.size ∧
      Handler.startAt ⟨listing.relocated long interned, Decoded.boundariesOf l long interned⟩ offset
        = .ok (listing.order.idxOf handle) := by
  have hSlot : handle < listing.slots.size := by
    rw [← Layout.size_starts_of_ofListing (LongForms.settle_eq_ok h.settled).1, ← h.starts_eq]
    cases hStart : e.starts[handle]? with
    | none => simp [offsetOf, hStart] at hOffset
    | some start => exact (Array.getElem?_eq_some_iff.1 hStart).1
  obtain ⟨hSame, hInside, hAt⟩ :=
    h.offsetOf_some (Listing.position?_eq_some.1 (Listing.position?_of_lt hSlot))
  obtain rfl : l.startOf handle = offset := Except.ok.inj (hSame.symm.trans hOffset)
  refine ⟨hSlot, hInside, ?_⟩
  rw [Handler.startAt, hAt]
  rfl

theorem Renders.bound_of_offsetOf (h : e.Renders listing l long interned) {bound : Option Handle}
    (hOffset : e.offsetOf bound = .ok offset) :
    (∀ handle ∈ bound, handle < listing.slots.size) ∧ offset ≤ e.code.size ∧
      Decoded.instructionAt
        ⟨listing.relocated long interned, Decoded.boundariesOf l long interned⟩ offset
          = .ok (bound.map listing.order.idxOf) := by
  cases bound with
  | none =>
      cases hOffset
      exact ⟨by simp, Nat.le_refl _, h.instructionAt_size⟩
  | some handle =>
      obtain ⟨hSlot, hInside, _⟩ := h.start_of_offsetOf hOffset
      obtain ⟨hSame, _, hAt⟩ :=
        h.offsetOf_some (Listing.position?_eq_some.1 (Listing.position?_of_lt hSlot))
      obtain rfl : l.startOf handle = offset := Except.ok.inj (hSame.symm.trans hOffset)
      exact ⟨by simpa using hSlot, Nat.le_of_lt hInside, hAt⟩

end Encoded

namespace Handler

variable {e : Encoded} {listing : Listing} {l : Layout} {long : LongForms}
  {interned : List (Handle × Instruction)}

/-- The end of a range is found behind its length. -/
theorem endAt_of_bound {d : Decoded} {start stop size : Nat} {bound : Option Handle}
    (hOrder : start ≤ stop) (hStop : stop ≤ size) (hSize : size < 0x100000000)
    (hAt : d.instructionAt stop = .ok bound) :
    endAt d (UInt32.ofNat start).toNat (UInt32.ofNat (stop - start)).toNat = .ok bound := by
  rw [UInt32.toNat_ofNat', UInt32.toNat_ofNat', Nat.mod_eq_of_lt (by omega),
    Nat.mod_eq_of_lt (by omega), endAt, Nat.add_sub_cancel' hOrder, if_pos (by omega), hAt]

/-- The last field of the clause, which is an offset for filters. -/
def typeOrFilter (e : Encoded) (h : Handler) : Except Fault Nat :=
  match h.filterStart, h.classToken with
  | some filter, _ => e.offsetOf filter
  | none, some token => .ok token.value.toNat
  | none, none => .ok 0

/-- How a clause is written, with the last field as a step of its own. -/
theorem toClause_eq (e : Encoded) (h : Handler) : h.toClause e = do
    let tryStart ← e.offsetOf h.tryStart
    let handlerStart ← e.offsetOf h.handlerStart
    let classOrFilter ← h.typeOrFilter e
    let tryEnd ← e.offsetOf h.tryEnd
    let handlerEnd ← e.offsetOf h.handlerEnd
    if tryEnd < tryStart ∨ handlerEnd < handlerStart then .error .clauseInverted
    else
      return ⟨h.flags, UInt32.ofNat tryStart, UInt32.ofNat (tryEnd - tryStart),
        UInt32.ofNat handlerStart, UInt32.ofNat (handlerEnd - handlerStart),
        UInt32.ofNat classOrFilter⟩ := by
  unfold toClause typeOrFilter
  cases h.filterStart with
  | some filter => rfl
  | none =>
      cases h.classToken with
      | some token => rfl
      | none => rfl

/-- The filter and the type that a clause names are those of its handler. -/
def filterOf (d : Decoded) (c : Clause) : Except Fault (Option Handle) :=
  if c.flags.isFilter then some <$> startAt d c.classOrFilter.toNat else .ok none

/-- How a handler is read, with the filter and the type as steps of their own. Both this and how it
is written can then be compared step by step. -/
theorem ofClause_eq (d : Decoded) (c : Clause) : ofClause d c = do
    let filterStart ← filterOf d c
    let tryStart ← startAt d c.tryOffset.toNat
    let tryEnd ← endAt d c.tryOffset.toNat c.tryLength.toNat
    let handlerStart ← startAt d c.handlerOffset.toNat
    let handlerEnd ← endAt d c.handlerOffset.toNat c.handlerLength.toNat
    return ⟨c.flags, tryStart, tryEnd, handlerStart, handlerEnd, filterStart,
      if c.flags.isCatch then some ⟨c.classOrFilter⟩ else none⟩ := by
  unfold ofClause filterOf
  cases c.flags.isFilter <;> cases c.flags.isCatch <;> rfl

/-- The flags of a filter are not those of a catch, which have no bits at all. -/
theorem not_isCatch_of_isFilter {flags : ClauseFlags} (hFilter : flags.isFilter = true) :
    flags.isCatch = false := by
  unfold ClauseFlags.isFilter at hFilter
  unfold ClauseFlags.isCatch
  rw [beq_eq_false_iff_ne]
  rintro hZero
  simp [hZero] at hFilter

/-- Whether the last field is a type or a filter is told by the flags. -/
theorem filterOf_of_typeOrFilter {h : Handler} {n : Nat} {c : Clause} (hWell : h.WellFormed)
    (hRenders : e.Renders listing l long interned) (hSize : e.code.size < 0x100000000)
    (hField : h.typeOrFilter e = .ok n) (hFlags : c.flags = h.flags)
    (hValue : c.classOrFilter = UInt32.ofNat n) :
    (∀ filter ∈ h.filterStart, filter < listing.slots.size) ∧
      filterOf ⟨listing.relocated long interned, Decoded.boundariesOf l long interned⟩ c
        = .ok (h.filterStart.map listing.order.idxOf) ∧
      (if c.flags.isCatch then some ⟨c.classOrFilter⟩ else none) = h.classToken := by
  have hFilter := hWell.filter
  have hCatch := hWell.catch_type
  rw [filterOf, hFlags, hValue]
  unfold typeOrFilter at hField
  cases hStart : h.filterStart with
  | some filter =>
      rw [hStart] at hField hFilter
      obtain ⟨hSlot, hInside, hAt⟩ := hRenders.start_of_offsetOf hField
      have hIsFilter : h.flags.isFilter = true := hFilter.symm
      rw [not_isCatch_of_isFilter hIsFilter] at hCatch ⊢
      have hNoToken : h.classToken = none := Option.not_isSome_iff_eq_none.1 (by simp [hCatch])
      rw [UInt32.toNat_ofNat', Nat.mod_eq_of_lt (by omega), if_pos hIsFilter, hAt, hNoToken]
      exact ⟨by simpa using hSlot, rfl, rfl⟩
  | none =>
      rw [hStart] at hField hFilter
      rw [← hFilter, if_neg (by decide), ← hCatch]
      cases hToken : h.classToken with
      | some token =>
          rw [hToken] at hField
          cases hField
          rw [UInt32.ofNat_toNat]
          exact ⟨by simp, rfl, rfl⟩
      | none => exact ⟨by simp, rfl, rfl⟩

/-- A clause gives back the handler that it stands for. -/
theorem ofClause_of_toClause {h : Handler} {c : Clause} (hWell : h.WellFormed)
    (hRenders : e.Renders listing l long interned) (hSize : e.code.size < 0x100000000)
    (hClause : h.toClause e = .ok c) :
    c.flags = h.flags ∧ (∀ bound ∈ h.bounds, bound < listing.slots.size) ∧
      ofClause ⟨listing.relocated long interned, Decoded.boundariesOf l long interned⟩ c
        = .ok (h.relocate listing.order.idxOf) := by
  rw [toClause_eq] at hClause
  obtain ⟨tryStart, hTryStart, hClause⟩ := Except.bind_eq_ok.1 hClause
  obtain ⟨handlerStart, hHandlerStart, hClause⟩ := Except.bind_eq_ok.1 hClause
  obtain ⟨classOrFilter, hField, hClause⟩ := Except.bind_eq_ok.1 hClause
  obtain ⟨tryEnd, hTryEnd, hClause⟩ := Except.bind_eq_ok.1 hClause
  obtain ⟨handlerEnd, hHandlerEnd, hClause⟩ := Except.bind_eq_ok.1 hClause
  split at hClause
  · cases hClause
  rename_i hUpright
  cases hClause
  obtain ⟨hTrySlot, hTryInside, hTryAt⟩ := hRenders.start_of_offsetOf hTryStart
  obtain ⟨hHandlerSlot, hHandlerInside, hHandlerAt⟩ := hRenders.start_of_offsetOf hHandlerStart
  obtain ⟨hTryEndSlot, hTryEndLe, hTryEndAt⟩ := hRenders.bound_of_offsetOf hTryEnd
  obtain ⟨hHandlerEndSlot, hHandlerEndLe, hHandlerEndAt⟩ := hRenders.bound_of_offsetOf hHandlerEnd
  obtain ⟨hFilterSlot, hFilterAt, hClass⟩ :=
    filterOf_of_typeOrFilter hWell hRenders hSize hField (c := ⟨h.flags, UInt32.ofNat tryStart,
      UInt32.ofNat (tryEnd - tryStart), UInt32.ofNat handlerStart,
      UInt32.ofNat (handlerEnd - handlerStart), UInt32.ofNat classOrFilter⟩) rfl rfl
  refine ⟨rfl, fun bound hBound => ?_, ?_⟩
  · rcases mem_bounds.1 hBound with rfl | rfl | hMem | hMem | hMem
    · exact hTrySlot
    · exact hHandlerSlot
    · exact hTryEndSlot bound hMem
    · exact hHandlerEndSlot bound hMem
    · exact hFilterSlot bound hMem
  · have hStart : ∀ start, start < e.code.size → (UInt32.ofNat start).toNat = start := by
      intro start hInside
      rw [UInt32.toNat_ofNat', Nat.mod_eq_of_lt (by omega)]
    rw [ofClause_eq, hFilterAt, hClass]
    refine Except.bind_eq_ok.2 ⟨_, rfl, Except.bind_eq_ok.2 ⟨_, ?_, Except.bind_eq_ok.2 ⟨_, ?_,
      Except.bind_eq_ok.2 ⟨_, ?_, Except.bind_eq_ok.2 ⟨_, ?_, rfl⟩⟩⟩⟩⟩
    · rw [hStart tryStart hTryInside, hTryAt]
    · exact endAt_of_bound (by omega) hTryEndLe hSize hTryEndAt
    · rw [hStart handlerStart hHandlerInside, hHandlerAt]
    · exact endAt_of_bound (by omega) hHandlerEndLe hSize hHandlerEndAt

end Handler

namespace MethodBody

/-- The body that is read back from the code of a body and its literals. -/
def rewritten (b : MethodBody) (codeSize : Nat) (long : LongForms)
    (interned : List (Handle × Instruction)) : MethodBody where
  maxStack :=
    (MethodHeader.written codeSize b.maxStack b.locals b.initLocals (!b.handlers.isEmpty)).maxStack
  locals := b.locals
  initLocals := b.initLocals
  listing := b.listing.relocated long interned
  handlers := b.handlers.map (Handler.relocate · b.listing.order.idxOf)

variable {σ : Type} {intern : Interner σ} {s s' : σ} {b : MethodBody} {w : Bytes}

/-- A body put together from its code and from the clauses for its handlers. -/
def assemble (code : Bytes) (maxStack : UInt16) (locals : Token) (initLocals : Bool)
    (clauses : List Clause) : Except Fault Bytes := do
  let header ← MethodHeader.encode code.size maxStack locals initLocals (!clauses.isEmpty)
  let body : Bytes := header.toArray ++ code
  if clauses.isEmpty then return body
  else return body.padTo 4 ++ (← Clause.encodeSection clauses).toArray

/-- A body whose code and clauses are known is only put together, which asks for no further tokens.
-/
theorem encode_of_parts {e : Encoded} {clauses : List Clause}
    (hCode : Encoded.ofListing b.listing intern s = .ok e s')
    (hClauses : b.handlers.mapM (Handler.toClause e) = .ok clauses) : b.encode intern s
      = Edit.check (fun _ => assemble e.code b.maxStack b.locals b.initLocals clauses) s' := by
  have hParts : (do
      let clauses ← b.handlers.mapM (Handler.toClause e)
      assemble e.code b.maxStack b.locals b.initLocals clauses)
      = assemble e.code b.maxStack b.locals b.initLocals clauses := by
    rw [hClauses]
    rfl
  rw [← hParts]
  change (Encoded.ofListing b.listing intern >>= fun code => Edit.check fun _ => do
    let clauses ← b.handlers.mapM (Handler.toClause code)
    assemble code.code b.maxStack b.locals b.initLocals clauses) s = _
  simp only [bind, EStateM.bind, hCode]

/-- The parts that a written body consists of. -/
theorem encode_eq_ok (hEncode : b.encode intern s = .ok w s') :
    ∃ e clauses, Encoded.ofListing b.listing intern s = .ok e s' ∧
      b.handlers.mapM (Handler.toClause e) = .ok clauses ∧
      assemble e.code b.maxStack b.locals b.initLocals clauses = .ok w := by
  obtain ⟨e, middle, hCode, hRest⟩ := Edit.bind_eq_ok.1 hEncode
  obtain ⟨hParts, rfl⟩ := Edit.check_eq_ok.1 hRest
  obtain ⟨clauses, hClauses, hParts⟩ := Except.bind_eq_ok.1 hParts
  exact ⟨e, clauses, hCode, hClauses, hParts⟩

/-- There are two cases: a body without clauses, and one with a section at the next multiple of
four. -/
theorem assemble_eq_ok {code : Bytes} {maxStack : UInt16} {locals : Token} {initLocals : Bool}
    {clauses : List Clause} (hAssemble : assemble code maxStack locals initLocals clauses = .ok w) :
    ∃ header, MethodHeader.encode code.size maxStack locals initLocals (!clauses.isEmpty)
        = .ok header ∧
      (clauses = [] ∧ w = header.toArray ++ code ∨
        ∃ bytes, Clause.encodeSection clauses = .ok bytes ∧ clauses ≠ [] ∧
          w = Bytes.padTo (header.toArray ++ code) 4 ++ bytes.toArray) := by
  obtain ⟨header, hHeader, hParts⟩ := Except.bind_eq_ok.1 hAssemble
  refine ⟨header, hHeader, ?_⟩
  dsimp only at hParts
  split at hParts
  · rename_i hEmpty
    cases hParts
    exact .inl ⟨List.isEmpty_iff.1 hEmpty, rfl⟩
  · rename_i hSome
    obtain ⟨bytes, hBytes, hParts⟩ := Except.bind_eq_ok.1 hParts
    cases hParts
    exact .inr ⟨bytes, hBytes, by simpa using hSome, rfl⟩

/-- The clauses stand for the handlers, one for one. -/
theorem handlers_of_clauses {e : Encoded} {l : Layout} {long : LongForms}
    {interned : List (Handle × Instruction)} {clauses : List Clause}
    (hWell : ∀ h ∈ b.handlers, h.WellFormed) (hRenders : e.Renders b.listing l long interned)
    (hSize : e.code.size < 0x100000000)
    (hClauses : b.handlers.mapM (Handler.toClause e) = .ok clauses) :
    (∀ c ∈ clauses, c.flags.bits.toNat < 8) ∧
      (∀ h ∈ b.handlers, ∀ bound ∈ h.bounds, bound < b.listing.slots.size) ∧
      clauses.mapM (Handler.ofClause
        ⟨b.listing.relocated long interned, Decoded.boundariesOf l long interned⟩)
        = .ok (b.handlers.map (Handler.relocate · b.listing.order.idxOf)) := by
  have hEach := Except.mapM_eq_ok.1 hClauses
  rw [Except.mapM_eq_ok, List.forall₂_map_right_iff]
  generalize b.handlers = handlers at hWell hEach
  clear hClauses
  induction hEach with
  | nil => exact ⟨by simp, by simp, .nil⟩
  | cons hHead _ ih =>
      rw [List.forall_mem_cons] at hWell
      obtain ⟨hFlags, hBounds, hAgain⟩ := Handler.ofClause_of_toClause hWell.1 hRenders hSize hHead
      obtain ⟨hFlags', hBounds', hAgain'⟩ := ih hWell.2
      rw [List.forall_mem_cons, List.forall_mem_cons]
      exact ⟨⟨hFlags ▸ hWell.1.flags_lt, hFlags'⟩, ⟨hBounds, hBounds'⟩, .cons hAgain hAgain'⟩

/-- Reading a body, with the sections behind its code left open. -/
theorem scan_of_parts {resolver : Resolver} {data : Bytes} {start middle stop : Nat}
    {header : MethodHeader} {code : Bytes} {d : Decoded} {clauses : List Clause}
    {handlers : List Handler} (hHeader : MethodHeader.scan data start = .ok header middle)
    (hSize : code.size = header.codeSize) (hCode : data.Holds middle code.toList)
    (hDecoded : Decoded.ofCode code resolver = .ok d)
    (hSections : (if header.moreSections then Clause.scanSections start [] else pure [])
      data (middle + code.size) = .ok clauses stop)
    (hHandlers : clauses.mapM (Handler.ofClause d) = .ok handlers) :
    scan resolver data start
      = .ok ⟨header.maxStack, header.locals, header.initLocals, d.listing, handlers⟩ stop := by
  have hBytes := hCode.scan_bytes
  rw [Array.length_toList, hSize] at hBytes
  rw [hSize] at hSections
  rw [scan, Scan.bind_of_ok (show Scan.position data _ = .ok _ _ from rfl), Scan.bind_of_ok hHeader,
    Scan.bind_of_ok hBytes, Array.toArray_toList,
    Scan.bind_of_ok (Scan.check_eq_ok.2 ⟨hDecoded, rfl⟩)]
  dsimp only
  split
  · rename_i hMore
    rw [if_pos hMore] at hSections
    rw [Scan.bind_of_ok hSections, Scan.bind_of_ok (Scan.check_eq_ok.2 ⟨hHandlers, rfl⟩)]
    rfl
  · rename_i hMore
    rw [if_neg hMore] at hSections
    rw [Scan.bind_of_ok hSections, Scan.bind_of_ok (Scan.check_eq_ok.2 ⟨hHandlers, rfl⟩)]
    rfl

/-- A body that was put together is read back wherever it stands, and reading ends where it ends. -/
theorem scan_of_assemble {resolver : Resolver} {code data : Bytes} {start : Nat}
    {maxStack : UInt16} {locals : Token} {initLocals : Bool} {clauses : List Clause} {d : Decoded}
    {handlers : List Handler}
    (hAssemble : assemble code maxStack locals initLocals clauses = .ok w)
    (hFlags : ∀ c ∈ clauses, c.flags.bits.toNat < 8)
    (hDecoded : Decoded.ofCode code resolver = .ok d)
    (hHandlers : clauses.mapM (Handler.ofClause d) = .ok handlers)
    (hHolds : data.Holds start w.toList) :
    ∃ middle, MethodHeader.scan data start = .ok (MethodHeader.written code.size maxStack locals
        initLocals (!clauses.isEmpty)) middle ∧
      data.Holds middle code.toList ∧ scan resolver data start
        = .ok ⟨(MethodHeader.written code.size maxStack locals initLocals
            (!clauses.isEmpty)).maxStack, locals, initLocals, d.listing, handlers⟩
          (start + w.size) := by
  obtain ⟨header, hHeader, hParts⟩ := assemble_eq_ok hAssemble
  have hRead : ∀ stop, data.Holds start (header ++ code.toList) →
      (if !clauses.isEmpty then Clause.scanSections start [] else pure [])
        data (start + (header.length + code.size)) = .ok clauses stop →
      ∃ middle, MethodHeader.scan data start = .ok (MethodHeader.written code.size maxStack
        locals initLocals (!clauses.isEmpty)) middle ∧ data.Holds middle code.toList ∧
      scan resolver data start = .ok ⟨(MethodHeader.written code.size maxStack locals initLocals
        (!clauses.isEmpty)).maxStack, locals, initLocals, d.listing, handlers⟩ stop := by
    intro stop hFront hSections
    obtain ⟨hHead, hTail⟩ := Bytes.holds_append.1 hFront
    have hInside := hTail.1
    rw [Array.length_toList] at hInside
    have hScan := MethodHeader.scan_of_encode hHeader hHead hInside
    refine ⟨_, hScan, hTail, ?_⟩
    rw [scan_of_parts hScan MethodHeader.written_codeSize.symm hTail hDecoded
      (by rwa [MethodHeader.written_moreSections, Nat.add_assoc]) hHandlers,
      MethodHeader.written_locals, MethodHeader.written_initLocals]
  rcases hParts with ⟨rfl, rfl⟩ | ⟨bytes, hBytes, hSome, rfl⟩
  · rw [Array.toList_append] at hHolds
    refine hRead _ hHolds ?_
    rw [Array.size_append, List.size_toArray]
    rfl
  · obtain ⟨hFront, hSection⟩ := hHolds.of_padTo (by decide)
    have hMore : (!clauses.isEmpty) = true := by simpa using hSome
    rw [Array.toList_append] at hFront
    rw [Array.size_append, List.size_toArray] at hSection
    refine hRead _ hFront ?_
    rw [if_pos hMore, Clause.scanSections_of_last
      (Clause.scanSection_of_encodeSection hBytes hFlags hSection), List.nil_append,
      Array.size_append, Bytes.size_padTo _ (by decide), Array.size_append, Nat.add_assoc]
    rfl

/-- A written body is read back wherever it stands, and reading ends where the body ends. -/
theorem scan_of_encode (hWell : ∀ h ∈ b.handlers, h.WellFormed)
    (hEncode : b.encode intern s = .ok w s') :
    ∃ e l long interned, Encoded.ofListing b.listing intern s = .ok e s' ∧
      b.listing.interned intern s = .ok interned s' ∧ e.Renders b.listing l long interned ∧
      (∀ h ∈ b.handlers, ∀ bound ∈ h.bounds, bound < b.listing.slots.size) ∧
      ∀ resolver : Resolver, (∀ entry ∈ interned, resolver.Knows entry.2.operand) →
        ∀ data start, data.Holds start w.toList →
          (∃ middle, MethodHeader.scan data start = .ok (MethodHeader.written e.code.size b.maxStack
            b.locals b.initLocals (!b.handlers.isEmpty)) middle) ∧
          scan resolver data start
            = .ok (b.rewritten e.code.size long interned) (start + w.size) := by
  obtain ⟨e, clauses, hCode, hClauses, hAssemble⟩ := encode_eq_ok hEncode
  obtain ⟨header, hHeader, _⟩ := assemble_eq_ok hAssemble
  obtain ⟨l, long, interned, hIntern, hRenders⟩ := Encoded.renders_of_ofListing hCode
  obtain ⟨hFlags, hBounds, hHandlers⟩ := handlers_of_clauses hWell hRenders
    (MethodHeader.codeSize_lt_of_encode hHeader) hClauses
  have hEmpty : clauses.isEmpty = b.handlers.isEmpty := by
    rw [Bool.eq_iff_iff, List.isEmpty_iff_length_eq_zero, List.isEmpty_iff_length_eq_zero,
      (Except.mapM_eq_ok.1 hClauses).length_eq]
  refine ⟨e, l, long, interned, hCode, hIntern, hRenders, hBounds,
    fun resolver hKnows data start hHolds => ?_⟩
  obtain ⟨middle, hScan, _, hBody⟩ := scan_of_assemble hAssemble hFlags
    (hRenders.decoded resolver hKnows) hHandlers hHolds
  rw [hEmpty] at hScan hBody
  exact ⟨⟨middle, hScan⟩, hBody⟩

/-- A body survives being written and read, whatever bytes follow. Instructions and the bounds of
handlers are at the same positions, and the stack is only ever raised: to that of a tiny header,
for the bodies that have one. -/
theorem read_written (hWell : ∀ h ∈ b.handlers, h.WellFormed)
    (hEncode : b.encode intern s = .ok w s') :
    ∃ e l long interned, Encoded.ofListing b.listing intern s = .ok e s' ∧
      LongForms.settle b.listing (LongForms.none b.listing) = .ok (l, long) ∧
      long.OfShort b.listing ∧ b.listing.interned intern s = .ok interned s' ∧
      ∀ resolver : Resolver, (∀ entry ∈ interned, resolver.Knows entry.2.operand) →
        ∀ trailing : Bytes, ∃ header b',
          MethodHeader.scan.evalAt (w ++ trailing) 0 = .ok header ∧
          (scan resolver).evalAt (w ++ trailing) 0 = .ok b' ∧
          b.listing.ReadAs long interned b'.listing ∧
          b'.handlers = b.handlers.map (Handler.relocate · b.listing.order.idxOf) ∧
          (∀ h ∈ b.handlers, ∀ bound ∈ h.bounds,
            b.listing.position? bound = some (b.listing.order.idxOf bound)) ∧
          b'.locals = b.locals ∧ b'.initLocals = b.initLocals ∧
          (header.fat = false ↔ e.code.size ≤ 63 ∧ b.maxStack ≤ 8 ∧ b.locals = .null ∧
            b.initLocals = false ∧ b.handlers = []) ∧
          b'.maxStack = (if header.fat then b.maxStack else 8) ∧ b.maxStack ≤ b'.maxStack := by
  obtain ⟨e, l, long, interned, hCode, hIntern, hRenders, hBounds, hScan⟩ :=
    scan_of_encode hWell hEncode
  have hShort := LongForms.ofShort_of_settle hRenders.settled (LongForms.ofShort_none b.listing)
  refine ⟨e, l, long, interned, hCode, hRenders.settled, hShort, hIntern,
    fun resolver hKnows trailing => ?_⟩
  have hHolds : Bytes.Holds (w ++ trailing) 0 w.toList := by
    simpa using Bytes.holds_middle #[] w.toList trailing
  obtain ⟨⟨middle, hHeader⟩, hBody⟩ := hScan resolver hKnows _ 0 hHolds
  refine ⟨_, _, Scan.evalAt_eq_ok.2 ⟨_, hHeader⟩, Scan.evalAt_eq_ok.2 ⟨_, hBody⟩, hRenders.readAs,
    rfl, fun h hMem bound hBound => Listing.position?_of_lt (hBounds h hMem bound hBound), rfl, rfl,
    ?_, MethodHeader.written_maxStack, MethodHeader.le_written_maxStack⟩
  rw [MethodHeader.written_fat_eq_false, MethodHeader.FitsTiny, Bool.not_eq_false',
    List.isEmpty_iff]
  exact Iff.rfl

/-- A region that a filter guards, with the end of the method stored first. -/
def guarded : MethodBody where
  maxStack := 1
  locals := .null
  initLocals := false
  listing := {
    slots := #[.plain .ret, .plain .nop, ⟨.leaveS, .target 0⟩, .plain .endfilter,
      ⟨.leaveS, .target 0⟩, .plain .nop]
    order := [1, 5, 2, 3, 4, 0]
    arranged := by decide }
  handlers := [⟨⟨1⟩, 1, some 3, 4, some 0, some 3, none⟩]

/-- The end of the method comes back as the last position. The byte behind the body does not
disturb. -/
theorem read_written_guarded :
    ∃ w b', guarded.encode Encoded.countLiterals 1 = .ok w 1 ∧
      (scan (.ofLists [] [])).evalAt (w ++ #[0xFF]) 0 = .ok b' ∧
      b'.handlers = [⟨⟨1⟩, 0, some 3, 4, some 5, some 3, none⟩] ∧ b'.maxStack = 1 := by
  have hWell : ∀ h ∈ guarded.handlers, h.WellFormed := by
    intro h hMem
    obtain rfl := List.mem_singleton.1 hMem
    exact ⟨by decide, rfl, rfl⟩
  have hEncode : guarded.encode Encoded.countLiterals 1
      = .ok #[11, 48, 1, 0, 9, 0, 0, 0, 0, 0, 0, 0, 0, 0, 222, 4, 254, 17, 222, 0, 42, 0, 0, 0,
        1, 16, 0, 0, 1, 0, 0, 0, 4, 6, 0, 2, 4, 0, 0, 0] 1 := by cbv
  obtain ⟨e, l, long, interned, hCode, -, -, hIntern, hRead⟩ := read_written hWell hEncode
  obtain rfl : [(1, .plain .nop), (5, .plain .nop), (2, ⟨.leaveS, .target 0⟩),
      (3, .plain .endfilter), (4, ⟨.leaveS, .target 0⟩), (0, .plain .ret)] = interned :=
    (Edit.pure_eq_ok.1 (show EStateM.Result.ok _ 1 = EStateM.Result.ok interned 1 from hIntern)).1
  obtain ⟨header, b', -, hBody, -, hHandlers, -, -, -, hTiny, hStack, -⟩ :=
    hRead (.ofLists [] []) (by simp [Resolver.Knows, Instruction.plain]) #[0xFF]
  refine ⟨_, b', hEncode, hBody, hHandlers, ?_⟩
  have hFat : header.fat = true := by
    by_contra hTinyHeader
    simpa [guarded] using (hTiny.1 (by simpa using hTinyHeader)).2.2.2.2
  rw [hStack, hFat]
  rfl

end MethodBody

end IlSplice
