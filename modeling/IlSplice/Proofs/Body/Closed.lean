import IlSplice.Proofs.Body.ControlFlow
import IlSplice.Proofs.Body.Locality

/-! All references in a body that was read lead to instructions of the body. -/

namespace IlSplice

variable {resolver : Resolver} {boundaries : Boundaries} {h : Nat}

namespace Boundaries

/-- An offset is marked with an instruction of the code, or was marked before. The handles are
counted up from the first. -/
theorem lt_of_mark {raws : List RawInstruction} {first offset : Nat}
    (hMark : (mark boundaries first raws)[offset]? = some (some h)) :
    h < first + raws.length ∨ boundaries[offset]? = some (some h) := by
  induction raws generalizing boundaries first with
  | nil => exact .inr hMark
  | cons raw rest ih =>
      rw [mark] at hMark
      rw [List.length_cons]
      rcases ih hMark with hLess | hOld
      · exact .inl (by omega)
      · rw [Array.getElem?_setIfInBounds] at hOld
        split at hOld
        · split at hOld
          · cases hOld
            exact .inl (by omega)
          · cases hOld
        · exact .inr hOld

/-- A branch leads to a marked offset, and nowhere else. -/
theorem getElem?_of_target {offset : Int} (hTarget : boundaries.target offset = .ok h) :
    ∃ start : Nat, boundaries[start]? = some (some h) := by
  unfold target at hTarget
  split at hTarget
  · rename_i found hFound
    cases hTarget
    split at hFound
    · exact ⟨offset.toNat, Option.join_eq_some_iff.1 hFound⟩
    · cases hFound
  · cases hTarget

end Boundaries

/-- The branch targets of a resolved operand are starts of instructions. -/
theorem RawOperand.targets_of_resolve {kind : OperandKind} {data : Bytes} {start stop : Nat}
    {raw : RawOperand} {operand : Operand} (hScan : RawOperand.scan kind data start = .ok raw stop)
    (hResolve : raw.resolve boundaries resolver = .ok operand) :
    ∀ target ∈ operand.targets, ∃ offset : Nat, boundaries[offset]? = some (some target) := by
  intro target hTarget
  cases raw with
  | plain value =>
      cases hResolve
      rw [(RawOperand.plain_of_scan hScan).1] at hTarget
      cases hTarget
  | target offset =>
      obtain ⟨found, hFound, hOperand⟩ := Except.bind_eq_ok.1 hResolve
      cases hOperand
      obtain rfl := List.mem_singleton.1 hTarget
      exact Boundaries.getElem?_of_target hFound
  | switch offsets =>
      obtain ⟨found, hFound, hOperand⟩ := Except.bind_eq_ok.1 hResolve
      cases hOperand
      obtain ⟨offset, -, hOne⟩ := forall₂_mem_right (Except.mapM_eq_ok.1 hFound) hTarget
      exact Boundaries.getElem?_of_target hOne
  | method t =>
      obtain ⟨name, -, hOperand⟩ := Except.bind_eq_ok.1 hResolve
      cases hOperand
      cases hTarget
  | literal t =>
      obtain ⟨text, -, hOperand⟩ := Except.bind_eq_ok.1 hResolve
      cases hOperand
      cases hTarget

namespace Decoded

variable {code : Bytes} {d : Decoded}

/-- Every offset that an instruction starts at is that of an instruction of the listing. -/
def Bounded (d : Decoded) : Prop :=
  ∀ (offset h : Nat), d.boundaries[offset]? = some (some h) → h < d.listing.slots.size

/-- All that decoded code names is an instruction of its own. -/
theorem bounded_of_ofCode (hCode : ofCode code resolver = .ok d) :
    d.Bounded ∧ ∀ i ∈ d.listing.slots, ∀ target ∈ i.targets, target < d.listing.slots.size := by
  obtain ⟨raws, boundaries, instructions, hScan, rfl, hEach, rfl⟩ := ofCode_eq_ok hCode
  have hBounded : ∀ (offset h : Nat),
      (Boundaries.mark (Array.replicate code.size none) 0 raws.toList)[offset]? = some (some h) →
        h < instructions.length := by
    intro offset h hMark
    rcases Boundaries.lt_of_mark hMark with hLess | hOld
    · rw [← hEach.length_eq]
      omega
    · obtain ⟨_, hNone⟩ := Array.getElem?_eq_some_iff.1 hOld
      rw [Array.getElem_replicate] at hNone
      cases hNone
  refine ⟨hBounded, fun i hMem target hTarget => ?_⟩
  obtain ⟨raw, hRaw, -, hOperand⟩ :=
    forall₂_mem_right hEach (by simpa [Listing.ofArray] using hMem)
  obtain ⟨start, stop, hOne⟩ := scan_of_mem_scanAll (by simp) hScan raw (by simpa using hRaw)
  obtain ⟨kind, middle, last, hKind⟩ := RawInstruction.operand_of_scan hOne
  obtain ⟨offset, hStart⟩ := RawOperand.targets_of_resolve hKind hOperand target hTarget
  exact hBounded offset target hStart

theorem Bounded.instructionAt (hBounded : d.Bounded) {offset : Nat}
    (hAt : d.instructionAt offset = .ok (some h)) : h < d.listing.slots.size := by
  unfold Decoded.instructionAt at hAt
  split at hAt
  · cases hAt
  · split at hAt
    · rename_i found hFound
      cases hAt
      exact hBounded offset h (Option.join_eq_some_iff.1 hFound)
    · cases hAt

end Decoded

namespace Handler

variable {d : Decoded} {c : Clause} {handler : Handler}

theorem lt_of_startAt (hBounded : d.Bounded) {offset : Nat}
    (hStart : startAt d offset = .ok h) : h < d.listing.slots.size := by
  obtain ⟨found, hAt, hSome⟩ := Except.bind_eq_ok.1 hStart
  split at hSome
  · cases hSome
    exact hBounded.instructionAt hAt
  · cases hSome

/-- A range ends in front of an instruction, or at the end of the code. -/
theorem lt_of_endAt (hBounded : d.Bounded) {offset length : Nat} {bound : Option Handle}
    (hEnd : endAt d offset length = .ok bound) : ∀ h ∈ bound, h < d.listing.slots.size := by
  rintro h rfl
  unfold endAt at hEnd
  split at hEnd
  · exact hBounded.instructionAt hEnd
  · cases hEnd

theorem bounds_of_ofClause (hBounded : d.Bounded) (hClause : ofClause d c = .ok handler) :
    ∀ bound ∈ handler.bounds, bound < d.listing.slots.size := by
  rw [ofClause_eq] at hClause
  obtain ⟨filter, hFilter, hClause⟩ := Except.bind_eq_ok.1 hClause
  obtain ⟨tryStart, hTryStart, hClause⟩ := Except.bind_eq_ok.1 hClause
  obtain ⟨tryEnd, hTryEnd, hClause⟩ := Except.bind_eq_ok.1 hClause
  obtain ⟨handlerStart, hHandlerStart, hClause⟩ := Except.bind_eq_ok.1 hClause
  obtain ⟨handlerEnd, hHandlerEnd, hClause⟩ := Except.bind_eq_ok.1 hClause
  cases hClause
  intro bound hBound
  rcases mem_bounds.1 hBound with rfl | rfl | hMem | hMem | hMem
  · exact lt_of_startAt hBounded hTryStart
  · exact lt_of_startAt hBounded hHandlerStart
  · exact lt_of_endAt hBounded hTryEnd bound hMem
  · exact lt_of_endAt hBounded hHandlerEnd bound hMem
  · unfold filterOf at hFilter
    split at hFilter
    · obtain ⟨start, hStart, rfl⟩ := Except.map_eq_ok.1 hFilter
      cases hMem
      exact lt_of_startAt hBounded hStart
    · cases hFilter
      cases hMem

end Handler

/-- A body that was read refers to its own instructions only. -/
theorem MethodBody.closed_of_scan {data : Bytes} {start stop : Nat} {b : MethodBody}
    (hScan : scan resolver data start = .ok b stop) : b.Closed := by
  obtain ⟨header, middle, d, clauses, -, hDecoded, -, hHandlers, hBody⟩ := scan_eq_ok hScan
  obtain ⟨hBounded, hTargets⟩ := Decoded.bounded_of_ofCode hDecoded
  have hListing : b.listing = d.listing := by rw [hBody]
  refine ⟨fun h i hGet target hTarget => ?_, fun handler hMem bound hBound => ?_⟩
  · rw [hListing] at hGet ⊢
    exact ⟨_, Listing.position?_of_lt
      (hTargets i (Array.mem_of_getElem? hGet) target hTarget)⟩
  · obtain ⟨c, -, hClause⟩ := forall₂_mem_right (Except.mapM_eq_ok.1 hHandlers) hMem
    rw [hListing]
    exact ⟨_, Listing.position?_of_lt (Handler.bounds_of_ofClause hBounded hClause bound hBound)⟩

end IlSplice
