import IlSplice.Patch.Config
import IlSplice.Proofs.Body.Closed
import IlSplice.Proofs.Patch.Plan

/-! What a patched body is once it was written and read. The stores stand in front of the call, and
everything else is where it was, as many instructions further on as there are new ones. -/

namespace IlSplice

theorem Listing.idxOf_of_position? {l : Listing} {h : Handle} {k : Nat}
    (hPosition : l.position? h = some k) : l.order.idxOf h = k :=
  Option.some.inj ((position?_of_lt (mem_order_of_position? hPosition)).symm.trans hPosition)

theorem Operand.mapTargets_congr {operand : Operand} {f g : Handle → Handle}
    (hSame : ∀ target ∈ operand.targets, f target = g target) :
    operand.mapTargets f = operand.mapTargets g := by
  cases operand with
  | target h => exact congrArg _ (hSame h (List.mem_singleton_self h))
  | switch hs => exact congrArg _ (List.map_congr_left hSame)
  | _ => rfl

theorem Handler.relocate_congr {handler : Handler} {f g : Handle → Handle}
    (hSame : ∀ bound ∈ handler.bounds, f bound = g bound) :
    handler.relocate f = handler.relocate g := by
  simp only [Handler.mem_bounds] at hSame
  have hEnd : ∀ bound : Option Handle, (∀ h ∈ bound, f h = g h) → bound.map f = bound.map g :=
    fun bound hBound => Option.map_congr hBound
  unfold Handler.relocate
  rw [hSame _ (.inl rfl), hSame _ (.inr (.inl rfl)),
    hEnd handler.tryEnd fun h hMem => hSame h (.inr (.inr (.inl hMem))),
    hEnd handler.handlerEnd fun h hMem => hSame h (.inr (.inr (.inr (.inl hMem)))),
    hEnd handler.filterStart fun h hMem => hSame h (.inr (.inr (.inr (.inr hMem))))]

/-- An instruction without branch target has one form only. -/
theorem Instruction.form_of_ofShort {long : LongForms} {listing : Listing} {h : Handle}
    {i : Instruction} (hShort : long.OfShort listing) (hGet : listing.get? h = some i)
    (hTargets : i.targets = []) : i.form (long.getD h false) = i.opcode := by
  cases hLong : long.getD h false with
  | false => rfl
  | true =>
      obtain ⟨i', hGet', hSome⟩ := hShort h hLong
      obtain rfl := Option.some.inj (hGet.symm.trans hGet')
      unfold Instruction.shortTarget? at hSome
      split at hSome
      · rename_i target _ hOperand
        rw [Instruction.targets, hOperand] at hTargets
        cases hTargets
      · cases hSome

namespace Patch

/-- Where an instruction goes if entries are stored in front of a position. -/
def shifted (position count k : Nat) : Nat := if k < position then k else k + 4 * count

/-- The other body has the entries of a patch, and is the same one besides. -/
structure Patched (config : Config) (outcome : Outcome) (anchors : Anchors) (position : Nat)
    (b again : MethodBody) : Prop where
  located :
    Anchors.locate b.listing config.injectionMember config.sizeMember = .ok anchors
  position_eq : b.listing.position? anchors.injection = some position
  previousSize : ∃ i, b.listing.get? anchors.size = some i ∧ i.constant? = some outcome.previousSize
  arraySize : config.entries.length + 1 ≤ maxSize ∧
    outcome.arraySize = Int32.ofNat (config.entries.length + 1)
  inserted_eq : outcome.inserted = 4 * config.entries.length
  size_eq : again.listing.size = b.listing.size + 4 * config.entries.length
  handle : ∀ k, k < again.listing.size → again.listing.handleAt? k = some k
  /-- Only short branches can have another form, their long one. -/
  kept : ∀ k h i, b.listing.handleAt? k = some h → b.listing.get? h = some i → h ≠ anchors.size →
    ∃ long, (long = true → i.shortTarget?.isSome) ∧
      again.listing.get? (shifted position config.entries.length k) = some ⟨i.form long,
        i.operand.mapTargets fun h =>
          shifted position config.entries.length (b.listing.order.idxOf h)⟩
  resized : ∀ k, b.listing.handleAt? k = some anchors.size →
    again.listing.get? (shifted position config.entries.length k)
      = some (.loadInt outcome.arraySize)
  stored : ∀ j entry, config.entries[j]? = some entry → ∃ t,
    again.listing.get? (position + 4 * j) = some (.plain .dup) ∧
      again.listing.get? (position + (4 * j + 1)) = some (.loadInt (Int32.ofNat (j + 1))) ∧
      again.listing.get? (position + (4 * j + 2)) = some ⟨.ldstr, .literal ⟨some t, entry⟩⟩ ∧
      again.listing.get? (position + (4 * j + 3)) = some (.plain .stelemRef)
  handlers_eq : again.handlers = b.handlers.map (Handler.relocate · fun h =>
    shifted position config.entries.length (b.listing.order.idxOf h))
  locals_eq : again.locals = b.locals
  initLocals_eq : again.initLocals = b.initLocals
  maxStack : outcome.maxStack.toNat
    = b.maxStack.toNat + if config.entries = [] then 0 else storeDepth
  /-- A body with a tiny header has the stack of such a header. -/
  maxStack_read : outcome.maxStack ≤ again.maxStack ∧
    (again.maxStack = outcome.maxStack ∨ again.maxStack = 8)

/-- The stores are found by the number of their entry and by their place among the four
instructions. -/
theorem storesFrom_getElem? {entries : List String} {index j d : Nat} {entry : String}
    (hEntry : entries[j]? = some entry) (hd : d < 4) :
    (storesFrom index entries)[4 * j + d]? = (store (Int32.ofNat (index + j)) entry)[d]? := by
  induction entries generalizing index j with
  | nil => cases hEntry
  | cons first rest ih =>
      change (store (Int32.ofNat index) first ++ storesFrom (index + 1) rest)[4 * j + d]? = _
      cases j with
      | zero =>
          cases hEntry
          rw [List.getElem?_append_left (by simpa [store] using hd), Nat.mul_zero, Nat.zero_add]
          rfl
      | succ j =>
          rw [List.getElem?_append_right (by simp [store]; omega),
            show 4 * (j + 1) + d - (store (Int32.ofNat index) first).length = 4 * j + d by
              simp [store]; omega, ih hEntry, show index + 1 + j = index + (j + 1) by omega]

namespace Plan

variable {p : Plan} {b b' again : MethodBody} {previous : Int32} {position : Nat} {long : LongForms}
  {interned : List (Handle × Instruction)}

section

variable (hApplied : p.Applied b b' previous position) (hClosed : b.Closed)

include hApplied

/-- Instructions behind the stores move by four for each entry, and all others stay. -/
theorem Applied.position?_shifted {h : Handle} {k : Nat} (hOld : b.listing.position? h = some k) :
    b'.listing.position? h = some (shifted position p.entries.length k) := by
  have hInside := (List.getElem?_eq_some_iff.1 (Listing.position?_eq_some.1
    hApplied.position_eq)).1
  rw [hApplied.spliced.position?_old (Nat.le_of_lt hInside) hOld, length_storesFrom, shifted]

theorem Applied.idxOf_shifted {h : Handle} (hOld : ∃ k, b.listing.position? h = some k) :
    b'.listing.order.idxOf h
      = shifted position p.entries.length (b.listing.order.idxOf h) := by
  obtain ⟨k, hk⟩ := hOld
  rw [Listing.idxOf_of_position? (hApplied.position?_shifted hk), Listing.idxOf_of_position? hk]

/-- A new instruction comes back with a token for its literal. -/
theorem Applied.readAs_new (hRead : b'.listing.ReadAs long interned again.listing)
    (hShort : long.OfShort b'.listing) {j : Nat} {i : Instruction}
    (hNew : (storesFrom 1 p.entries)[j]? = some i) :
    ∃ operand, i.operand.IsInterned operand ∧
      again.listing.get? (position + j)
        = some ⟨i.opcode, operand.mapTargets b'.listing.order.idxOf⟩ := by
  have hInside := (List.getElem?_eq_some_iff.1 (Listing.position?_eq_some.1
    hApplied.position_eq)).1
  have hj := (List.getElem?_eq_some_iff.1 hNew).1
  have hGet := (hApplied.spliced.get?_new j).trans hNew
  obtain ⟨i', operand, hGet', hInterned, _, _, hAgain⟩ := hRead.instruction _ _
    (hApplied.spliced.order_new (Nat.le_of_lt hInside) hj)
  obtain rfl := Option.some.inj (hGet.symm.trans hGet')
  rw [Instruction.form_of_ofShort hShort hGet
    (targets_of_mem_storesFrom (List.mem_of_getElem? hNew)).1] at hAgain
  exact ⟨operand, hInterned, hAgain⟩

/-- In the code that is read back, each entry has its four instructions in the window. -/
theorem Applied.stored (hRead : b'.listing.ReadAs long interned again.listing)
    (hShort : long.OfShort b'.listing) {j : Nat} {entry : String}
    (hEntry : p.entries[j]? = some entry) : ∃ t,
    again.listing.get? (position + 4 * j) = some (.plain .dup) ∧
      again.listing.get? (position + (4 * j + 1)) = some (.loadInt (Int32.ofNat (j + 1))) ∧
      again.listing.get? (position + (4 * j + 2)) = some ⟨.ldstr, .literal ⟨some t, entry⟩⟩ ∧
      again.listing.get? (position + (4 * j + 3)) = some (.plain .stelemRef) := by
  have hStore : ∀ d, d < 4 → (storesFrom 1 p.entries)[4 * j + d]?
      = (store (Int32.ofNat (j + 1)) entry)[d]? := by
    intro d hd
    rw [storesFrom_getElem? hEntry hd, Nat.add_comm 1 j]
  obtain ⟨dup, hDup, hFirst⟩ := hApplied.readAs_new hRead hShort (hStore 0 (by decide))
  obtain ⟨index, hIndex, hSecond⟩ := hApplied.readAs_new hRead hShort (hStore 1 (by decide))
  obtain ⟨text, hText, hThird⟩ := hApplied.readAs_new hRead hShort (hStore 2 (by decide))
  obtain ⟨store, hStore, hFourth⟩ := hApplied.readAs_new hRead hShort (hStore 3 (by decide))
  rcases hDup with ⟨rfl, _⟩ | ⟨_, _, hLiteral, _⟩
  rcases hIndex with ⟨rfl, _⟩ | ⟨_, _, hLiteral, _⟩
  rcases hStore with ⟨rfl, _⟩ | ⟨_, _, hLiteral, _⟩
  rcases hText with ⟨_, hToken⟩ | ⟨t, _, hLiteral, rfl⟩
  · exact (hToken entry rfl).elim
  · cases hLiteral
    exact ⟨t, hFirst, hSecond, hThird, hFourth⟩
  all_goals cases hLiteral

/-- In the code that is read back, the array has its new size. -/
theorem Applied.resized (hRead : b'.listing.ReadAs long interned again.listing)
    (hShort : long.OfShort b'.listing) {k : Nat}
    (hSize : b.listing.handleAt? k = some p.anchors.size) :
    again.listing.get? (shifted position p.entries.length k)
      = some (.loadInt (Int32.ofNat (p.entries.length + 1))) := by
  have hOrder := hApplied.position?_shifted (Listing.position?_eq_some.2 hSize)
  have hGet := hApplied.spliced.get?_changed
  obtain ⟨i', operand, hGet', hInterned, _, _, hAgain⟩ :=
    hRead.instruction _ _ (Listing.position?_eq_some.1 hOrder)
  obtain rfl := Option.some.inj (hGet.symm.trans hGet')
  rw [Instruction.form_of_ofShort hShort hGet rfl] at hAgain
  rcases hInterned with ⟨rfl, _⟩ | ⟨_, _, hLiteral, _⟩
  · exact hAgain
  · cases hLiteral

include hClosed

/-- In the code that is read back, every other instruction is the same, up to long forms, and leads
where it did. -/
theorem Applied.kept (hRead : b'.listing.ReadAs long interned again.listing)
    (hShort : long.OfShort b'.listing) {k : Nat} {h : Handle} {i : Instruction}
    (hOrder : b.listing.handleAt? k = some h) (hGet : b.listing.get? h = some i)
    (hOther : h ≠ p.anchors.size) (hToken : ∀ text, i.operand ≠ .literal ⟨none, text⟩) :
    ∃ isLong, (isLong = true → i.shortTarget?.isSome) ∧
      again.listing.get? (shifted position p.entries.length k) = some ⟨i.form isLong,
        i.operand.mapTargets fun h =>
          shifted position p.entries.length (b.listing.order.idxOf h)⟩ := by
  have hPlace := hApplied.position?_shifted (Listing.position?_eq_some.2 hOrder)
  have hSlot := (Array.getElem?_eq_some_iff.1 hGet).1
  have hSame := (hApplied.spliced.get?_old hSlot hOther).trans hGet
  obtain ⟨i', operand, hGet', hInterned, _, _, hAgain⟩ :=
    hRead.instruction _ _ (Listing.position?_eq_some.1 hPlace)
  obtain rfl := Option.some.inj (hSame.symm.trans hGet')
  refine ⟨long.getD h false, fun hLong => ?_, ?_⟩
  · obtain ⟨i', hGet', hSome⟩ := hShort h hLong
    obtain rfl := Option.some.inj (hSame.symm.trans hGet')
    exact hSome
  · rcases hInterned with ⟨rfl, _⟩ | ⟨_, text, hLiteral, _⟩
    · rw [hAgain, Operand.mapTargets_congr fun target hTarget =>
        hApplied.idxOf_shifted (hClosed.targets h i hGet target hTarget)]
    · exact (hToken text hLiteral).elim

end

/-- The body that a plan leaves behind comes back from a file as a patched one. -/
theorem Applied.patched {config : Config} {anchors : Anchors} {outcome : Outcome}
    (hApplied : (Plan.mk config.entries anchors).Applied b b' previous position)
    (hOutcome : outcome = ⟨previous, Int32.ofNat (config.entries.length + 1),
      4 * config.entries.length, b'.maxStack⟩)
    (hLocated :
      Anchors.locate b.listing config.injectionMember config.sizeMember = .ok anchors)
    (hClosed : b.Closed) (hTokens : ∀ i ∈ b.listing.slots, ∀ text,
      i.operand ≠ .literal ⟨none, text⟩)
    (hRead : b'.listing.ReadAs long interned again.listing) (hShort : long.OfShort b'.listing)
    (hHandlers : again.handlers = b'.handlers.map (Handler.relocate · b'.listing.order.idxOf))
    (hLocals : again.locals = b'.locals) (hInitLocals : again.initLocals = b'.initLocals)
    (hStack : b'.maxStack ≤ again.maxStack ∧
      (again.maxStack = b'.maxStack ∨ again.maxStack = 8)) :
    Patched config outcome anchors position b again := by
  obtain ⟨hPrevious, _, _⟩ := check_eq_ok.1 hApplied.checked
  have hSize : b'.listing.size = b.listing.size + 4 * config.entries.length := by
    rw [Listing.size_eq, Listing.size_eq, hApplied.spliced.size_slots, length_storesFrom]
  subst hOutcome
  refine ⟨hLocated, hApplied.position_eq, hPrevious, ⟨hApplied.entries_le, rfl⟩, rfl, ?_, ?_, ?_,
    ?_, ?_, ?_, ?_, ?_, ?_, hStack⟩
  · rw [hRead.size_eq, hSize]
  · intro k hk
    rw [hRead.size_eq] at hk
    obtain ⟨_, _, _, _, _, hHandle, _⟩ :=
      hRead.instruction k _ (List.getElem?_eq_getElem (show k < b'.listing.order.length from hk))
    exact hHandle
  · intro k h i hOrder hGet hOther
    exact hApplied.kept hClosed hRead hShort hOrder hGet hOther
      (hTokens i (Array.mem_of_getElem? hGet))
  · exact fun k hOrder => hApplied.resized hRead hShort hOrder
  · exact fun j entry hEntry => hApplied.stored hRead hShort hEntry
  · rw [hHandlers, hApplied.handlers_eq]
    refine List.map_congr_left fun handler hMem => Handler.relocate_congr fun bound hBound => ?_
    exact hApplied.idxOf_shifted (hClosed.bounds handler hMem bound hBound)
  · rw [hLocals, hApplied.locals_eq]
  · rw [hInitLocals, hApplied.initLocals_eq]
  · exact toNat_maxStack hApplied.maxStack_eq

end Plan

end Patch

end IlSplice
