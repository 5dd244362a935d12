import IlSplice.Proofs.Code.Emission

/-! Taking code apart undoes putting it together. The instructions come back in layout order, so
that each gets its position for a handle, and branches lead to the positions of their targets. -/

namespace IlSplice

namespace Boundaries

variable {boundaries : Boundaries} {first : Handle} {raws : List RawInstruction}

@[simp] theorem size_mark : (boundaries.mark first raws).size = boundaries.size := by
  induction raws generalizing boundaries first with
  | nil => rfl
  | cons raw rest ih => rw [mark, ih, Array.size_setIfInBounds]

/-- Offsets at which no instruction starts are left unmarked. -/
theorem mark_of_notMem {offset : Nat} (hOther : ∀ raw ∈ raws, raw.offset ≠ offset) :
    (boundaries.mark first raws)[offset]? = boundaries[offset]? := by
  induction raws generalizing boundaries first with
  | nil => rfl
  | cons raw rest ih =>
      rw [mark, ih fun later hLater => hOther later (by simp [hLater]),
        Array.getElem?_setIfInBounds_ne (hOther raw (by simp))]

/-- The offset of each instruction is marked with its number. -/
theorem mark_of_getElem? {raw : RawInstruction} {k : Nat}
    (hOnce : raws.Pairwise fun raw later => raw.offset < later.offset) (hRaw : raws[k]? = some raw)
    (hInside : raw.offset < boundaries.size) :
    (boundaries.mark first raws)[raw.offset]? = some (some (first + k)) := by
  induction raws generalizing boundaries first k with
  | nil => cases hRaw
  | cons head rest ih =>
      rw [List.pairwise_cons] at hOnce
      rw [mark]
      cases k with
      | zero =>
          cases hRaw
          rw [mark_of_notMem fun later hLater => Nat.ne_of_gt (hOnce.1 later hLater),
            Array.getElem?_setIfInBounds_self_of_lt hInside]
          rfl
      | succ k =>
          rw [ih hOnce.2 hRaw (by rwa [Array.size_setIfInBounds]), Nat.add_right_comm]
          rfl

theorem target_of_getElem? {start k : Nat} (h : boundaries[start]? = some (some k)) :
    boundaries.target start = .ok k := by
  rw [target, if_pos (Int.natCast_nonneg start), Int.toNat_natCast, h]
  rfl

end Boundaries

/-- The resolver finds the name or text that is kept beside the token of an operand. -/
def Resolver.Knows (resolver : Resolver) : Operand → Prop
  | .method callee => resolver.method callee.token = .ok callee.name
  | .literal ⟨some t, text⟩ => resolver.literal t = .ok text
  | _ => True

/-- An operand is resolved to what it was before it was written. -/
theorem RawOperand.resolve_raw {operand : Operand} {boundaries : Boundaries} {resolver : Resolver}
    {start : Handle → Nat} {position : Handle → Handle}
    (hToken : ∀ text, operand ≠ .literal ⟨none, text⟩) (hKnows : resolver.Knows operand)
    (hTargets : ∀ target ∈ operand.targets,
      boundaries.target (start target) = .ok (position target)) :
    RawOperand.resolve boundaries resolver (operand.raw start)
      = .ok (operand.mapTargets position) := by
  match operand with
  | .target goal => exact Except.map_eq_ok.2 ⟨_, hTargets goal (by simp [Operand.targets]), rfl⟩
  | .switch goals =>
      refine Except.map_eq_ok.2 ⟨goals.map position, Except.mapM_eq_ok.2 ?_, rfl⟩
      rw [List.forall₂_map_left_iff, List.forall₂_map_right_iff, List.forall₂_same]
      exact hTargets
  | .method callee => exact Except.map_eq_ok.2 ⟨callee.name, hKnows, rfl⟩
  | .literal ⟨none, text⟩ => exact (hToken text rfl).elim
  | .literal ⟨some t, text⟩ => exact Except.map_eq_ok.2 ⟨text, hKnows, rfl⟩
  | .none | .int8 _ | .uint8 _ | .uint16 _ | .int32 _ | .int64 _ | .float32 _ | .float64 _
  | .token _ => rfl

/-- The instruction in the form that is written, with other branch targets. -/
def Instruction.relocate (i : Instruction) (long : Bool) (position : Handle → Handle) :
    Instruction :=
  ⟨i.form long, i.operand.mapTargets position⟩

namespace Listing

/-- The listing of which every instruction has its position in the layout order for a handle. -/
def relocated (l : Listing) (long : LongForms) (interned : List (Handle × Instruction)) : Listing :=
  .ofArray (interned.map fun entry =>
    entry.2.relocate (long.getD entry.1 false) l.order.idxOf).toArray

/-- The instructions of another listing are those of this one, position by position: short
branches are in their long form where `long`, literals have the tokens of `interned`, and branches
lead to the same positions. -/
structure ReadAs (l : Listing) (long : LongForms) (interned : List (Handle × Instruction))
    (again : Listing) : Prop where
  size_eq : again.size = l.size
  instruction : ∀ k h, l.handleAt? k = some h → ∃ i operand, l.get? h = some i ∧
    i.operand.IsInterned operand ∧ interned[k]? = some (h, ⟨i.opcode, operand⟩) ∧
    again.handleAt? k = some k ∧
    again.get? k = some ⟨i.form (long.getD h false), operand.mapTargets l.order.idxOf⟩
  target : ∀ k h i, l.handleAt? k = some h → l.get? h = some i → ∀ goal ∈ i.operand.targets,
    l.position? goal = some (l.order.idxOf goal)

/-- The listing that is read back differs from the first one only in its handles, in the tokens of
literals and in the form of branches. -/
theorem readAs_relocated {σ : Type} {intern : Interner σ} {s s' : σ} {l : Listing}
    {interned : List (Handle × Instruction)} (long : LongForms)
    (hIntern : l.interned intern s = .ok interned s')
    (hTargets : ∀ entry ∈ interned, ∀ goal ∈ entry.2.operand.targets, goal < l.slots.size) :
    l.ReadAs long interned (l.relocated long interned) := by
  have hSize : (l.relocated long interned).size = l.size := by
    rw [size_eq, relocated, ofArray, List.size_toArray, List.length_map,
      ← (forall₂_of_internAll hIntern).length_eq, length_entries]
  refine ⟨hSize, fun k h hOrder => ?_, fun k h i hOrder hGet goal hGoal => ?_⟩
  · obtain ⟨i, operand, hGet, hOperand, hEntry⟩ := interned_of_handleAt? hIntern hOrder
    refine ⟨i, operand, hGet, hOperand, hEntry, ?_, ?_⟩
    · have hk : k < l.size := (List.getElem?_eq_some_iff.1 hOrder).1
      rw [← hSize, size_eq] at hk
      rw [handleAt?, relocated, ofArray, List.getElem?_range (by exact hk)]
    · rw [get?, relocated, ofArray, List.getElem?_toArray, List.getElem?_map, hEntry]
      rfl
  · obtain ⟨operand, hOperand, hInterned⟩ := mem_interned_of_get? hIntern hGet
    exact position?_of_lt (hTargets _ hInterned goal (hOperand.targets_eq ▸ hGoal))

end Listing

namespace Decoded

variable {l : Layout} {long : LongForms} {listing : Listing}
  {interned : List (Handle × Instruction)} {bs : List UInt8}

/-- The boundaries in code that was put together from instructions. -/
def boundariesOf (l : Layout) (long : LongForms) (interned : List (Handle × Instruction)) :
    Boundaries :=
  Boundaries.mark (Array.replicate l.size none) 0
    (interned.map fun entry => entry.2.raw l long entry.1)

/-- The start of each instruction leads to its position in the layout order. -/
theorem boundariesOf_startOf (hPlaces : l.Places long 0 interned)
    (hOrder : interned.map Prod.fst = listing.order) {h : Handle} {k : Nat}
    (hPosition : listing.order[k]? = some h) :
    l.startOf h < l.size ∧ (boundariesOf l long interned)[l.startOf h]? = some (some k) := by
  rw [← hOrder, List.getElem?_map, Option.map_eq_some_iff] at hPosition
  obtain ⟨entry, hEntry, rfl⟩ := hPosition
  have hInside := (hPlaces.start_le_startOf (List.mem_of_getElem? hEntry)).2
  refine ⟨hInside, ?_⟩
  have hRaw : (interned.map fun entry => entry.2.raw l long entry.1)[k]?
      = some (entry.2.raw l long entry.1) := by
    rw [List.getElem?_map, hEntry, Option.map_some]
  have hMark : (boundariesOf l long interned)[l.startOf entry.1]? = some (some (0 + k)) :=
    Boundaries.mark_of_getElem? (List.pairwise_map.2 hPlaces.pairwise_startOf) hRaw
      (by rwa [Array.size_replicate])
  rwa [Nat.zero_add] at hMark

/-- Code that was put together is taken apart into the instructions in layout order. -/
theorem ofCode_of_written {resolver : Resolver} (hWritten : Encoded.Written l long interned bs)
    (hPlaces : l.Places long 0 interned) (hOrder : interned.map Prod.fst = listing.order)
    (hSlots : l.starts.size = listing.slots.size)
    (hToken : ∀ entry ∈ interned, ∀ text, entry.2.operand ≠ .literal ⟨none, text⟩)
    (hKnows : ∀ entry ∈ interned, resolver.Knows entry.2.operand) :
    ofCode bs.toArray resolver
      = .ok ⟨listing.relocated long interned, boundariesOf l long interned⟩ := by
  have hSize : bs.toArray.size = l.size := by
    rw [hWritten.length_eq hPlaces, List.size_toArray, Nat.zero_add]
  have hScan : RawInstruction.scanAll bs.toArray 0 #[] = _ :=
    RawInstruction.scanAll_of_written hWritten hPlaces (Bytes.holds_self bs.toArray) (by simp)
  rw [ofCode, hScan, hSize, Array.empty_append]
  have hResolve : ∀ entry ∈ interned,
      RawOperand.resolve (boundariesOf l long interned) resolver (entry.2.operand.raw l.startOf)
        = .ok (entry.2.operand.mapTargets listing.order.idxOf) := by
    intro entry hMem
    refine RawOperand.resolve_raw (hToken entry hMem) (hKnows entry hMem) fun target hTarget => ?_
    have hSlot := hSlots ▸ hWritten.targets_lt hMem hTarget
    exact Boundaries.target_of_getElem? (boundariesOf_startOf hPlaces hOrder
      (Listing.position?_eq_some.1 (Listing.position?_of_lt hSlot))).2
  refine Except.bind_eq_ok.2 ⟨_, Except.mapM_eq_ok.2 ?_, rfl⟩
  rw [List.forall₂_map_left_iff, List.forall₂_map_right_iff, List.forall₂_same]
  exact fun entry hMem => Except.map_eq_ok.2 ⟨_, hResolve entry hMem, rfl⟩

end Decoded

namespace Encoded

variable {σ : Type} {intern : Interner σ} {listing : Listing} {e : Encoded} {s s' : σ}

/-- What code is that was put together from a listing. -/
structure Renders (e : Encoded) (listing : Listing) (l : Layout) (long : LongForms)
    (interned : List (Handle × Instruction)) : Prop where
  settled : LongForms.settle listing (LongForms.none listing) = .ok (l, long)
  widened_eq : e.widened = long.count true
  starts_eq : e.starts = l.starts
  size_eq : e.code.size = l.size
  order : interned.map Prod.fst = listing.order
  places : l.Places long 0 interned
  readAs : listing.ReadAs long interned (listing.relocated long interned)
  /-- The code is taken apart by every resolver that knows its tokens. -/
  decoded : ∀ resolver : Resolver, (∀ entry ∈ interned, resolver.Knows entry.2.operand) →
    Decoded.ofCode e.code resolver
      = .ok ⟨listing.relocated long interned, Decoded.boundariesOf l long interned⟩

/-- What the round trip needs is known of all code that was put together. It is collected here once.
-/
theorem renders_of_ofListing (hEncode : ofListing listing intern s = .ok e s') :
    ∃ l long interned, listing.interned intern s = .ok interned s' ∧
      e.Renders listing l long interned := by
  obtain ⟨⟨l, long⟩, middle, hCheck, hRest⟩ := Edit.bind_eq_ok.1 hEncode
  obtain ⟨code, last, hEmit, hPure⟩ := Edit.bind_eq_ok.1 hRest
  obtain ⟨rfl, rfl⟩ := Edit.pure_eq_ok.1 hPure
  obtain ⟨hSettle, rfl⟩ := Edit.check_eq_ok.1 hCheck
  obtain ⟨interned, bs, hIntern, rfl, hWritten⟩ := written_of_emit hEmit
  have hLayout := (LongForms.settle_eq_ok hSettle).1
  have hSlots := Layout.size_starts_of_ofListing hLayout
  have hPlaces := (Layout.places_of_ofListing hLayout).of_internAll hIntern
  have hEach := (Listing.forall₂_of_internAll hIntern).flip
  have hOrder : interned.map Prod.fst = listing.order :=
    (Listing.map_fst_of_internAll hIntern).trans listing.map_fst_entries
  have hToken := ((List.forall₂_and_left _ _).1
    (hEach.imp fun _ _ hSame => ⟨hSame.2.2.has_token, hSame⟩)).1
  rw [Array.empty_append]
  refine ⟨l, long, interned, hIntern, hSettle, rfl, rfl, ?_, hOrder, hPlaces,
    Listing.readAs_relocated long hIntern fun entry hMem goal hGoal => ?_, fun resolver hKnows =>
      Decoded.ofCode_of_written hWritten hPlaces hOrder hSlots hToken hKnows⟩
  · rw [hWritten.length_eq hPlaces, List.size_toArray, Nat.zero_add]
  · exact hSlots ▸ hWritten.targets_lt hMem hGoal

variable {l : Layout} {long : LongForms} {interned : List (Handle × Instruction)}

/-- The offset of an instruction leads back to its position. -/
theorem Renders.offsetOf_some (h : e.Renders listing l long interned) {k : Nat} {handle : Handle}
    (hPosition : listing.handleAt? k = some handle) :
    e.offsetOf (some handle) = .ok (l.startOf handle) ∧ l.startOf handle < e.code.size ∧
      Decoded.instructionAt ⟨listing.relocated long interned, Decoded.boundariesOf l long interned⟩
        (l.startOf handle) = .ok (some k) := by
  obtain ⟨hInside, hBoundary⟩ := Decoded.boundariesOf_startOf h.places h.order hPosition
  have hSlot : handle < l.starts.size := by
    rw [Layout.size_starts_of_ofListing (LongForms.settle_eq_ok h.settled).1, ← listing.mem_order]
    exact List.mem_of_getElem? hPosition
  refine ⟨?_, h.size_eq ▸ hInside, ?_⟩
  · rw [offsetOf, h.starts_eq, Array.getElem?_eq_getElem hSlot, Layout.startOf,
      Array.getD_eq_getD_getElem?, Array.getElem?_eq_getElem hSlot, Option.getD_some]
  · have hSize : (Decoded.boundariesOf l long interned).size = l.size := by
      rw [Decoded.boundariesOf, Boundaries.size_mark, Array.size_replicate]
    rw [Decoded.instructionAt, hSize, if_neg (Nat.ne_of_lt hInside), hBoundary]
    rfl

theorem Renders.instructionAt_size (h : e.Renders listing l long interned) :
    Decoded.instructionAt ⟨listing.relocated long interned, Decoded.boundariesOf l long interned⟩
      e.code.size = .ok none := by
  rw [Decoded.instructionAt, Decoded.boundariesOf, Boundaries.size_mark, Array.size_replicate,
    if_pos h.size_eq]

/-- Taking code apart undoes putting it together, for every listing and every way to keep track of
literals. The instructions come back at the same positions, and the offsets that the encoded code
has for them lead back to those positions. -/
theorem decode_encode (hEncode : ofListing listing intern s = .ok e s') :
    ∃ l long interned, LongForms.settle listing (LongForms.none listing) = .ok (l, long) ∧
      long.OfShort listing ∧ e.widened = long.count true ∧
      listing.interned intern s = .ok interned s' ∧
      ∀ resolver : Resolver, (∀ entry ∈ interned, resolver.Knows entry.2.operand) →
        ∃ d, Decoded.ofCode e.code resolver = .ok d ∧
          listing.ReadAs long interned d.listing ∧
          (∀ k h, listing.handleAt? k = some h → ∃ start,
            e.offsetOf (some h) = .ok start ∧ d.instructionAt start = .ok (some k)) ∧
          ∃ stop, e.offsetOf none = .ok stop ∧ d.instructionAt stop = .ok none := by
  obtain ⟨l, long, interned, hIntern, hRenders⟩ := renders_of_ofListing hEncode
  have hShort := LongForms.ofShort_of_settle hRenders.settled (LongForms.ofShort_none listing)
  refine ⟨l, long, interned, hRenders.settled, hShort, hRenders.widened_eq, hIntern,
    fun resolver hKnows => ⟨_, hRenders.decoded resolver hKnows, hRenders.readAs,
      fun k h hPosition => ?_, _, rfl, hRenders.instructionAt_size⟩⟩
  obtain ⟨hOffset, _, hAt⟩ := hRenders.offsetOf_some hPosition
  exact ⟨_, hOffset, hAt⟩

/-- A loop over a string literal, left through a jump table, with the end stored first. -/
def literalLoop : Listing where
  slots := #[.plain .ret, ⟨.switch, .switch [0, 3]⟩, ⟨.brS, .target 1⟩, .loadText "a"]
  order := [1, 3, 2, 0]
  arranged := by decide

/-- Gives each literal the next token, whatever its text. -/
def countLiterals : Interner Nat := fun _ n => .ok (Token.ofParts Token.literalTable n) (n + 1)

/-- The handles follow the layout order afterwards, and the jump table leads to the same
instructions. -/
theorem decode_encode_literalLoop :
    ∃ e d, ofListing literalLoop countLiterals 1 = .ok e 2 ∧
      Decoded.ofCode e.code (.ofLists [] [(Token.ofParts Token.literalTable 1, "a")]) = .ok d ∧
      d.listing.get? 0 = some ⟨.switch, .switch [3, 1]⟩ ∧
      ∃ start, e.offsetOf (some 2) = .ok start ∧ d.instructionAt start = .ok (some 2) := by
  have hEncode : ofListing literalLoop countLiterals 1
      = .ok ⟨#[0x45, 2, 0, 0, 0, 7, 0, 0, 0, 0, 0, 0, 0, 0x72, 1, 0, 0, 0x70, 0x2B, 0xEC, 0x2A], 0,
        #[20, 0, 18, 13]⟩ 2 := by cbv
  obtain ⟨l, long, interned, -, -, -, hIntern, hDecode⟩ := decode_encode hEncode
  obtain rfl : [(1, ⟨.switch, .switch [0, 3]⟩),
      (3, ⟨.ldstr, .literal ⟨some (Token.ofParts Token.literalTable 1), "a"⟩⟩),
      (2, ⟨.brS, .target 1⟩), (0, .plain .ret)] = interned :=
    (Edit.pure_eq_ok.1 (show EStateM.Result.ok _ 2 = EStateM.Result.ok interned 2 from hIntern)).1
  obtain ⟨d, hCode, hRead, hOffsets, -⟩ := hDecode
    (.ofLists [] [(Token.ofParts Token.literalTable 1, "a")])
    (by simp [Resolver.Knows, Resolver.ofLists, Instruction.plain])
  obtain ⟨i, operand, hGet, -, hOperand, -, hAgain⟩ := hRead.instruction 0 1 rfl
  obtain rfl : Instruction.mk .switch (.switch [0, 3]) = i := Option.some.inj hGet
  cases hOperand
  have hForm : ∀ isLong, (Instruction.mk .switch (.switch [0, 3])).form isLong = .switch := by
    decide
  rw [hForm] at hAgain
  exact ⟨_, d, hEncode, hCode, hAgain, hOffsets 2 2 rfl⟩

end Encoded

end IlSplice
