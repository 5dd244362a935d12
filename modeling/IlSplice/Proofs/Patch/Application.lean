import IlSplice.Proofs.Patch.Window

/-! The application of a plan as a whole. It changes what it says it does, and where it fails it
changes nothing. It fails where the check does, and where the new size or the new stack is out of
bounds. -/

namespace IlSplice

/-- An order is parted by the instructions that stand in it. -/
theorem Listing.order_eq_of_position? {l : Listing} {h : Handle} {k : Nat}
    (hPosition : l.position? h = some k) :
    l.order = l.order.take k ++ h :: l.order.drop (k + 1) := by
  obtain ⟨hk, hHandle⟩ := List.getElem?_eq_some_iff.1 (position?_eq_some.1 hPosition)
  rw [← hHandle, ← List.drop_eq_getElem_cons hk, List.take_append_drop]

namespace Patch.Plan

variable {p : Plan} {b b' : MethodBody} {outcome : Outcome} {previous : Int32} {position : Nat}

/-- What an applied plan has done. All entries are stored in front of the injection anchor, by
instructions with handles that are new, and the array size is the only old instruction that is
another one. -/
structure Edits (p : Plan) (b b' : MethodBody) (outcome : Outcome) : Prop where
  order : ∃ before behind, b.listing.order = before ++ p.anchors.injection :: behind ∧
    b'.listing.order = before ++ p.inserted b ++ p.anchors.injection :: behind
  fresh : ∀ h ∈ p.inserted b, b.listing.get? h = none
  stored : (p.inserted b).map b'.listing.get? = (storesFrom 1 p.entries).map some
  kept : ∀ h i, b.listing.get? h = some i → h ≠ p.anchors.size → b'.listing.get? h = some i
  resized : b'.listing.get? p.anchors.size = some (.loadInt outcome.arraySize)
  handlers_eq : b'.handlers = b.handlers
  locals_eq : b'.locals = b.locals
  initLocals_eq : b'.initLocals = b.initLocals
  maxStack_eq : b'.maxStack.toNat = b.maxStack.toNat + if p.entries = [] then 0 else 3
  previousSize : ∃ i, b.listing.get? p.anchors.size = some i ∧
    i.constant? = some outcome.previousSize
  arraySize : outcome.arraySize.toInt = p.entries.length + 1
  inserted_eq : outcome.inserted = 4 * p.entries.length
  outcome_maxStack : outcome.maxStack = b'.maxStack

/-- Directly in front of the injection anchor there are the new instructions. -/
theorem Applied.order_eq (hApplied : p.Applied b b' previous position) :
    b'.listing.order = b.listing.order.take position ++ p.inserted b
      ++ p.anchors.injection :: b.listing.order.drop (position + 1) := by
  obtain ⟨hk, hHandle⟩ := List.getElem?_eq_some_iff.1
    (Listing.position?_eq_some.1 hApplied.position_eq)
  rw [hApplied.spliced.order, length_storesFrom, List.drop_eq_getElem_cons hk, hHandle, inserted]

theorem Applied.stored_inserted (hApplied : p.Applied b b' previous position) :
    (p.inserted b).map b'.listing.get? = (storesFrom 1 p.entries).map some := by
  have hLength := length_storesFrom 1 p.entries
  refine List.ext_getElem (by simp [inserted, hLength]) fun j _ hStore => ?_
  rw [List.length_map] at hStore
  simp only [inserted, List.getElem_map, List.getElem_range', Nat.one_mul]
  rw [hApplied.spliced.get?_new, List.getElem?_eq_getElem hStore]

/-- Whatever applies edits the window only. This collects what is known of the listing, the stack
and the handlers. -/
theorem edits_of_apply (hApply : p.apply b = .ok outcome b') : p.Edits b b' outcome := by
  obtain ⟨previous, position, hApplied, rfl⟩ := applied_of_apply hApply
  have hSpliced := hApplied.spliced
  refine ⟨⟨_, _, Listing.order_eq_of_position? hApplied.position_eq, hApplied.order_eq⟩,
    fun h hNew => ?_, hApplied.stored_inserted, fun h i hGet hOther => ?_, hSpliced.get?_changed,
    hApplied.handlers_eq, hApplied.locals_eq, hApplied.initLocals_eq,
    toNat_maxStack hApplied.maxStack_eq, (check_eq_ok.1 hApplied.checked).1,
    Int32.toInt_ofNat_of_lt (Nat.lt_succ_of_le hApplied.entries_le), rfl, rfl⟩
  · exact Array.getElem?_eq_none (List.mem_range'_1.1 hNew).1
  · rw [hSpliced.get?_old (Array.getElem?_eq_some_iff.1 hGet).1 hOther, hGet]

/-- A plan fails its check, applies or has more entries than fit, and the body is changed only if it
applies. -/
theorem apply_cases (p : Plan) (b : MethodBody) :
    (∃ fault, p.check b = .error fault ∧ p.apply b = .error fault b) ∨
      ∃ previous, p.check b = .ok previous ∧
        (p.Fits b ∧ (∃ outcome b', p.apply b = .ok outcome b') ∨
          ¬ p.Fits b ∧ p.apply b = .error p.overrun b) := by
  cases hCheck : p.check b with
  | error fault =>
      exact .inl ⟨fault, rfl, Edit.bind_eq_error.2 (.inl (Edit.check_eq_error.2 ⟨hCheck, rfl⟩))⟩
  | ok previous =>
      refine .inr ⟨previous, rfl, ?_⟩
      by_cases hFits : p.Fits b
      · exact .inl ⟨hFits, apply_of_fits hCheck hFits⟩
      · exact .inr ⟨hFits, apply_of_not_fits hCheck hFits⟩

/-- There are two ways not to fit, and the second one does not matter without entries. -/
theorem not_fits_iff : ¬ p.Fits b ↔
    2 ^ 31 ≤ p.entries.length + 1 ∨ p.entries ≠ [] ∧ 2 ^ 16 ≤ b.maxStack.toNat + 3 := by
  rw [Fits, not_and_or, not_or, Nat.not_lt, Nat.not_lt]

/-- A plan that applies edits the body in front of the injection anchor and at the array size, and
one that does not leaves it as it is. It does not apply exactly if the check fails, the new size is
no constant, or the stack with the stores gets too deep. -/
theorem apply_edits_window (p : Plan) (b : MethodBody) :
    (∀ outcome b', p.apply b = .ok outcome b' → p.Edits b b' outcome) ∧
    (∀ fault b', p.apply b = .error fault b' → b' = b) ∧
    ((∃ fault b', p.apply b = .error fault b') ↔
      (∃ fault, p.check b = .error fault) ∨ 2 ^ 31 ≤ p.entries.length + 1 ∨
        p.entries ≠ [] ∧ 2 ^ 16 ≤ b.maxStack.toNat + 3) := by
  rw [← not_fits_iff]
  refine ⟨fun outcome b' => edits_of_apply, ?_⟩
  rcases p.apply_cases b with ⟨fault, hCheck, hApply⟩ |
    ⟨previous, hCheck, ⟨hFits, outcome, b', hApply⟩ | ⟨hFits, hApply⟩⟩
  · simp [hCheck, hApply, eq_comm]
  · simp [hCheck, hApply, hFits]
  · simp [hCheck, hApply, hFits, eq_comm]

end Patch.Plan

end IlSplice
