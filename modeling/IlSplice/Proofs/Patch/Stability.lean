import IlSplice.Proofs.Patch.Application
import IlSplice.Proofs.Patch.Repeated

/-! A body that was patched can be patched again. The anchors are where they were, and what is added
then goes between what was added before and the injection anchor. -/

namespace IlSplice.Patch.Plan

variable {p : Plan} {b b' b'' : MethodBody} {outcome outcome' : Outcome} {entries : List String}
  {previous : Int32} {position : Nat}

/-- After a patch the check of its anchors finds the size that it has set. -/
theorem Applied.check_again (hApplied : p.Applied b b' previous position) (hClosed : b.Closed)
    (entries : List String) : (Plan.mk entries p.anchors).check b'
      = .ok (Int32.ofNat (p.entries.length + 1)) := by
  have hInjection : p.anchors.injection ∈ p.window b := List.mem_append_right _ (by simp)
  refine check_eq_ok.2 ⟨⟨_, hApplied.spliced.get?_changed, rfl⟩, ?_, ?_⟩
  · exact ⟨_, hApplied.position?_shifted hApplied.position_eq⟩
  · exact MethodBody.isReferenced_eq_false.2 (hApplied.unreferenced_window hClosed hInjection)

/-- A plan that passed its checks applies exactly if the new sizes fit. -/
theorem apply_eq_ok_iff (hCheck : p.check b = .ok previous) :
    (∃ outcome b', p.apply b = .ok outcome b') ↔ p.Fits b := by
  constructor
  · rintro ⟨outcome, b', hApply⟩
    by_contra hFits
    rw [apply_of_not_fits hCheck hFits] at hApply
    cases hApply
  · exact apply_of_fits hCheck

/-- What a second patch adds stands directly behind what the first one has added. -/
theorem order_of_apply_again (hApply : p.apply b = .ok outcome b')
    (hAgain : (Plan.mk entries p.anchors).apply b' = .ok outcome' b'') :
    ∃ before behind, b.listing.order = before ++ p.anchors.injection :: behind ∧
      b''.listing.order = before ++ p.inserted b ++ (Plan.mk entries p.anchors).inserted b'
        ++ p.anchors.injection :: behind := by
  obtain ⟨before, behind, hOrder, hFirst⟩ := (edits_of_apply hApply).order
  obtain ⟨before', behind', hOrder', hSecond⟩ := (edits_of_apply hAgain).order
  refine ⟨before, behind, hOrder, ?_⟩
  have hOnce := hFirst ▸ b'.listing.nodup_order
  rw [List.nodup_middle, List.nodup_cons, List.mem_append, not_or] at hOnce
  rw [hFirst, List.append_cons_inj_of_notMem hOnce.1.1 hOnce.1.2] at hOrder'
  obtain ⟨rfl, -, rfl⟩ := hOrder'
  exact hSecond

/-- A patch leaves a body behind that can be patched again. The anchors are found where they were
found before, and the size is the one that was set. Another plan applies as long as there are
indices and there is a stack for its entries, and stores them between those of the first one and the
injection anchor. -/
theorem apply_again {injectionMember sizeMember : String} (hClosed : b.Closed)
    (hLocated : Anchors.locate b.listing injectionMember sizeMember = .ok p.anchors)
    (hApply : p.apply b = .ok outcome b') :
    Anchors.locate b'.listing injectionMember sizeMember = .ok p.anchors ∧
    (∃ size : Int32, size.toInt = p.entries.length + 1 ∧
      ∀ entries, (Plan.mk entries p.anchors).check b' = .ok size) ∧
    ∀ entries : List String,
      ((∃ outcome' b'', (Plan.mk entries p.anchors).apply b' = .ok outcome' b'') ↔
        entries.length + 1 < 2 ^ 31 ∧ (entries = [] ∨ b'.maxStack.toNat + 3 < 2 ^ 16)) ∧
      ∀ outcome' b'', (Plan.mk entries p.anchors).apply b' = .ok outcome' b'' →
        ∃ before behind, b.listing.order = before ++ p.anchors.injection :: behind ∧
          b''.listing.order = before ++ p.inserted b ++ (Plan.mk entries p.anchors).inserted b'
            ++ p.anchors.injection :: behind := by
  obtain ⟨previous, position, hApplied, -⟩ := applied_of_apply hApply
  have hCheck := hApplied.check_again hClosed
  have hSize := Int32.toInt_ofNat_of_lt (Nat.lt_succ_of_le hApplied.entries_le)
  exact ⟨hApplied.locate hLocated, ⟨_, hSize, hCheck⟩, fun entries =>
    ⟨apply_eq_ok_iff (hCheck entries), fun outcome' b'' => order_of_apply_again hApply⟩⟩

/-- A second run with more entries finds the anchors of the first one and applies. -/
theorem apply_again_startup : ∃ outcome b',
    startup.Closed ∧
    Anchors.locate startup.listing "SetAdditionalAssemblies" "add_eventLogMessage" = .ok ⟨3, 1⟩ ∧
    (Plan.mk ["c"] ⟨3, 1⟩).apply startup = .ok outcome b' ∧
    Anchors.locate b'.listing "SetAdditionalAssemblies" "add_eventLogMessage" = .ok ⟨3, 1⟩ ∧
    ∃ outcome' b'', (Plan.mk ["a", "b"] ⟨3, 1⟩).apply b' = .ok outcome' b'' := by
  have hTargets : ∀ i ∈ startup.listing.slots.toList, i.targets = [] := by decide
  have hClosed : startup.Closed := by
    refine ⟨fun h i hGet target hTarget => ?_, fun handler hMem => nomatch hMem⟩
    rw [hTargets i (Array.mem_toList_iff.2 (Array.mem_of_getElem? hGet))] at hTarget
    cases hTarget
  have hLocated : Anchors.locate startup.listing "SetAdditionalAssemblies" "add_eventLogMessage"
      = .ok ⟨3, 1⟩ := rfl
  have hApply : ∃ outcome b', (Plan.mk ["c"] ⟨3, 1⟩).apply startup = .ok outcome b' ∧
      b'.maxStack = 11 := ⟨_, _, rfl, rfl⟩
  obtain ⟨outcome, b', hApply, hStack⟩ := hApply
  obtain ⟨hAgain, -, hApplies⟩ := apply_again hClosed hLocated hApply
  refine ⟨outcome, b', hClosed, hLocated, hApply, hAgain, (hApplies _).1.2 ⟨by decide, .inr ?_⟩⟩
  rw [hStack]
  decide

end IlSplice.Patch.Plan
