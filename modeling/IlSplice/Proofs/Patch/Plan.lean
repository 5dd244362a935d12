import IlSplice.Patch.Plan
import IlSplice.Proofs.Listing
import IlSplice.Proofs.Outcome

/-! What a plan that applies does to a body. The stores are spliced in in front of the injection
anchor, the size constant is replaced, and only the stack changes besides. After the check only two
bounds can stop a plan, and then the body is what it was. -/

namespace IlSplice

/-- Editing the listing of a body leaves the rest of the body alone. -/
theorem MethodBody.editListing_eq_ok {α : Type} {edit : Edit Listing α} {b b' : MethodBody} {a : α}
    (hEdit : editListing edit b = .ok a b') :
    ∃ listing, edit b.listing = .ok a listing ∧ b' = { b with listing := listing } := by
  unfold editListing at hEdit
  split at hEdit
  · cases hEdit
    exact ⟨_, ‹_›, rfl⟩
  · cases hEdit

theorem MethodBody.editListing_of_ok {α : Type} {edit : Edit Listing α} {b : MethodBody}
    {listing : Listing} {a : α} (hEdit : edit b.listing = .ok a listing) :
    editListing edit b = .ok a { b with listing := listing } := by
  rw [editListing, hEdit]

namespace Patch

/-- The stores of entries, the first of which is stored at an index. -/
def storesFrom (index : Nat) (entries : List String) : List Instruction :=
  (entries.zipIdx index).flatMap fun (entry, k) => store (Int32.ofNat k) entry

/-- The checks on the way only make sure that the indices can be loaded. -/
theorem stores_eq_ok {index : Nat} {entries : List String} {sequence : List Instruction}
    (hStores : stores index entries = .ok sequence) : sequence = storesFrom index entries := by
  induction entries generalizing index sequence with
  | nil =>
      cases hStores
      rfl
  | cons entry rest ih =>
      rw [stores] at hStores
      split at hStores
      · obtain ⟨tail, hTail, hSequence⟩ := Except.bind_eq_ok.1 hStores
        cases hSequence
        rw [ih hTail]
        rfl
      · cases hStores

/-- Indices up to the greatest size have a constant. -/
theorem stores_of_le {index : Nat} {entries : List String}
    (hLast : index + entries.length ≤ maxSize + 1) :
    stores index entries = .ok (storesFrom index entries) := by
  induction entries generalizing index with
  | nil => rfl
  | cons entry rest ih =>
      rw [List.length_cons] at hLast
      rw [stores, if_pos (by omega), ih (by omega)]
      rfl

theorem length_storesFrom (index : Nat) (entries : List String) :
    (storesFrom index entries).length = 4 * entries.length := by
  induction entries generalizing index with
  | nil => rfl
  | cons entry rest ih =>
      have := ih (index + 1)
      change (store _ entry ++ storesFrom (index + 1) rest).length = _
      rw [List.length_append, this, List.length_cons]
      change 4 + _ = _
      omega

/-- A store branches nowhere. -/
theorem targets_of_mem_storesFrom {index : Nat} {entries : List String} {i : Instruction}
    (hMem : i ∈ storesFrom index entries) :
    i.targets = [] ∧ (i.opcode = .dup ∨ i.opcode = .ldcI4 ∨ i.opcode = .ldstr ∨
      i.opcode = .stelemRef) := by
  obtain ⟨⟨entry, k⟩, _, hStore⟩ := List.mem_flatMap.1 hMem
  simp only [store, List.mem_cons, List.not_mem_nil, or_false] at hStore
  rcases hStore with rfl | rfl | rfl | rfl
  · exact ⟨rfl, .inl rfl⟩
  · exact ⟨rfl, .inr (.inl rfl)⟩
  · exact ⟨rfl, .inr (.inr (.inl rfl))⟩
  · exact ⟨rfl, .inr (.inr (.inr rfl))⟩

namespace Plan

variable {p : Plan} {b b' : MethodBody} {outcome : Outcome} {previous size : Int32}

/-- A plan asks three things of a body: a constant as the size, an injection call in the code, and
no way to it but from above. -/
theorem check_eq_ok : p.check b = .ok previous ↔
    (∃ i, b.listing.get? p.anchors.size = some i ∧ i.constant? = some previous) ∧
      (∃ position, b.listing.position? p.anchors.injection = some position) ∧
      b.isReferenced p.anchors.injection = false := by
  constructor
  · intro hCheck
    unfold check at hCheck
    split at hCheck
    · cases hCheck
    rename_i i hGet
    split at hCheck
    · cases hCheck
    rename_i previousSize hConstant
    split at hCheck
    · cases hCheck
    rename_i hPosition
    split at hCheck
    · cases hCheck
    rename_i hReferenced
    cases hCheck
    refine ⟨⟨i, hGet, hConstant⟩, ?_, by simpa using hReferenced⟩
    exact Option.ne_none_iff_exists'.1 (by simpa using hPosition)
  · rintro ⟨⟨i, hGet, hConstant⟩, ⟨position, hPosition⟩, hReferenced⟩
    simp [check, hGet, hConstant, hPosition, hReferenced]

/-- The listing afterwards, for every sequence, also for none. -/
theorem spliced_of_splice {sequence : List Instruction} {l l' : Listing} {position : Nat}
    (hSplice : p.splice size sequence l = .ok () l')
    (hPosition : l.position? p.anchors.injection = some position) :
    l.Spliced l' position sequence p.anchors.size (.loadInt size) := by
  unfold splice at hSplice
  obtain ⟨i, middle, hReplace, hRest⟩ := Edit.bind_eq_ok.1 hSplice
  obtain ⟨hSlot, hSlots, hOrder⟩ := Listing.replace_eq_ok hReplace
  split at hRest
  · rename_i hEmpty
    obtain ⟨-, rfl⟩ := Edit.pure_eq_ok.1 hRest
    obtain rfl := List.isEmpty_iff.1 hEmpty
    exact ⟨hSlot, by simp [hSlots], by simp [hOrder]⟩
  · obtain ⟨handles, last, hInsert, hDone⟩ := Edit.bind_eq_ok.1 hRest
    obtain ⟨-, rfl⟩ := Edit.pure_eq_ok.1 hDone
    obtain ⟨place, hPlace, rfl, hSlots', hOrder'⟩ := Listing.insertBefore_eq_ok hInsert
    have hSame : place = position := by
      rw [Listing.position?_eq_some, hOrder, ← Listing.position?_eq_some, hPosition] at hPlace
      exact (Option.some.inj hPlace).symm
    subst hSame
    have hSize : middle.slots.size = l.slots.size := by rw [hSlots, Array.size_setIfInBounds]
    exact ⟨hSlot, by rw [hSlots', hSlots], by rw [hOrder', hOrder, hSize]⟩

/-- The stores need three slots more, and none if there are no entries. -/
theorem toNat_maxStack {stack : UInt16} (hStack : p.maxStack b = .ok stack) :
    stack.toNat = b.maxStack.toNat + if p.entries = [] then 0 else storeDepth := by
  unfold maxStack at hStack
  split at hStack
  · rename_i hEmpty
    rw [if_pos (List.isEmpty_iff.1 hEmpty)]
    exact congrArg UInt16.toNat (Except.ok.inj hStack).symm
  · rename_i hSome
    split at hStack
    · rename_i hFits
      rw [← Except.ok.inj hStack, if_neg (by simpa using hSome), UInt16.toNat_ofNat',
        Nat.mod_eq_of_lt hFits]
    · cases hStack

/-- The result of a plan that applies. -/
structure Applied (p : Plan) (b b' : MethodBody) (previous : Int32) (position : Nat) : Prop where
  checked : p.check b = .ok previous
  position_eq : b.listing.position? p.anchors.injection = some position
  unreferenced : b.isReferenced p.anchors.injection = false
  entries_le : p.entries.length + 1 ≤ maxSize
  spliced : b.listing.Spliced b'.listing position (storesFrom 1 p.entries) p.anchors.size
    (.loadInt (Int32.ofNat (p.entries.length + 1)))
  maxStack_eq : p.maxStack b = .ok b'.maxStack
  locals_eq : b'.locals = b.locals
  initLocals_eq : b'.initLocals = b.initLocals
  handlers_eq : b'.handlers = b.handlers

/-- A plan that was applied has done all of its steps, and the outcome reports them. -/
theorem applied_of_apply (hApply : p.apply b = .ok outcome b') :
    ∃ previous position, p.Applied b b' previous position ∧
      outcome
        = ⟨previous, Int32.ofNat (p.entries.length + 1), 4 * p.entries.length, b'.maxStack⟩ := by
  unfold apply at hApply
  obtain ⟨previous, _, hFirst, hApply⟩ := Edit.bind_eq_ok.1 hApply
  obtain ⟨size, _, hSecond, hApply⟩ := Edit.bind_eq_ok.1 hApply
  obtain ⟨sequence, _, hThird, hApply⟩ := Edit.bind_eq_ok.1 hApply
  obtain ⟨stack, _, hFourth, hApply⟩ := Edit.bind_eq_ok.1 hApply
  obtain ⟨hCheck, rfl⟩ := Edit.check_eq_ok.1 hFirst
  obtain ⟨hSize, rfl⟩ := Edit.check_eq_ok.1 hSecond
  obtain ⟨hSequence, rfl⟩ := Edit.check_eq_ok.1 hThird
  obtain ⟨hStack, rfl⟩ := Edit.check_eq_ok.1 hFourth
  obtain ⟨_, middle, hEdit, hApply⟩ := Edit.bind_eq_ok.1 hApply
  obtain ⟨listing, hSplice, rfl⟩ := MethodBody.editListing_eq_ok hEdit
  obtain ⟨_, last, hModify, hPure⟩ := Edit.bind_eq_ok.1 hApply
  cases hModify
  obtain ⟨rfl, rfl⟩ := Edit.pure_eq_ok.1 hPure
  obtain ⟨_, ⟨position, hPosition⟩, hReferenced⟩ := check_eq_ok.1 hCheck
  unfold arraySize at hSize
  split at hSize
  · rename_i hEntries
    cases hSize
    obtain rfl := stores_eq_ok hSequence
    refine ⟨previous, position, ⟨hCheck, hPosition, hReferenced, hEntries,
      spliced_of_splice hSplice hPosition, hStack, rfl, rfl, rfl⟩, ?_⟩
    rw [length_storesFrom]
  · cases hSize

/-- The new array has a size that can be loaded, and the stack with it one that can be stated. -/
def Fits (p : Plan) (b : MethodBody) : Prop :=
  p.entries.length + 1 < 2 ^ 31 ∧ (p.entries = [] ∨ b.maxStack.toNat + 3 < 2 ^ 16)

/-- Why a plan that was checked does not apply. -/
def overrun (p : Plan) : Fault :=
  if p.entries.length + 1 < 2 ^ 31 then .stackOverflow else .tooManyEntries p.entries.length

/-- The size is the last of the numbers to be loaded, so that one bound is enough for all of them.
-/
theorem arraySize_of_lt (hEntries : p.entries.length + 1 < 2 ^ 31) :
    p.arraySize = .ok (Int32.ofNat (p.entries.length + 1)) ∧
      p.storeSequence = .ok (storesFrom 1 p.entries) := by
  have hMax : p.entries.length + 1 ≤ maxSize := Nat.le_of_lt_succ hEntries
  exact ⟨if_pos hMax, stores_of_le (by omega)⟩

/-- What was checked can be changed. -/
theorem splice_of_check (hCheck : p.check b = .ok previous) (size : Int32)
    (sequence : List Instruction) : ∃ l, p.splice size sequence b.listing = .ok () l := by
  obtain ⟨⟨i, hGet, _⟩, ⟨position, hPosition⟩, _⟩ := check_eq_ok.1 hCheck
  obtain ⟨i', middle, hReplace⟩ := Listing.replace_of_lt (.loadInt size)
    (Array.getElem?_eq_some_iff.1 hGet).1
  have hOrder := (Listing.replace_eq_ok hReplace).2.2
  unfold splice
  cases hEmpty : sequence.isEmpty with
  | true => exact ⟨middle, Edit.bind_eq_ok.2 ⟨i', middle, hReplace, rfl⟩⟩
  | false =>
      have hPosition' : middle.position? p.anchors.injection = some position := by
        rwa [Listing.position?, hOrder]
      obtain ⟨handles, last, hInsert⟩ := Listing.insertBefore_of_position? sequence hPosition'
      exact ⟨last, Edit.bind_eq_ok.2 ⟨i', middle, hReplace,
        Edit.bind_eq_ok.2 ⟨handles, last, hInsert, rfl⟩⟩⟩

/-- A plan that was checked and that fits applies. -/
theorem apply_of_fits (hCheck : p.check b = .ok previous) (hFits : p.Fits b) :
    ∃ outcome b', p.apply b = .ok outcome b' := by
  obtain ⟨hEntries, hStack⟩ := hFits
  obtain ⟨hSize, hSequence⟩ := arraySize_of_lt hEntries
  have hMax : ∃ stack, p.maxStack b = .ok stack := by
    unfold maxStack
    rcases hStack with hNone | hFits
    · exact ⟨_, if_pos (List.isEmpty_iff.2 hNone)⟩
    · split
      · exact ⟨_, rfl⟩
      · exact ⟨_, if_pos hFits⟩
  obtain ⟨stack, hMax⟩ := hMax
  obtain ⟨l, hSplice⟩ := splice_of_check hCheck (Int32.ofNat (p.entries.length + 1))
    (storesFrom 1 p.entries)
  refine ⟨⟨previous, Int32.ofNat (p.entries.length + 1), (storesFrom 1 p.entries).length, stack⟩,
    { b with listing := l, maxStack := stack }, ?_⟩
  refine Edit.bind_eq_ok.2 ⟨previous, b, Edit.check_eq_ok.2 ⟨hCheck, rfl⟩, ?_⟩
  refine Edit.bind_eq_ok.2 ⟨_, b, Edit.check_eq_ok.2 ⟨hSize, rfl⟩, ?_⟩
  refine Edit.bind_eq_ok.2 ⟨_, b, Edit.check_eq_ok.2 ⟨hSequence, rfl⟩, ?_⟩
  refine Edit.bind_eq_ok.2 ⟨stack, b, Edit.check_eq_ok.2 ⟨hMax, rfl⟩, ?_⟩
  exact Edit.bind_eq_ok.2 ⟨(), _, MethodBody.editListing_of_ok hSplice, rfl⟩

/-- A plan that was checked and does not fit leaves the body as it was. -/
theorem apply_of_not_fits (hCheck : p.check b = .ok previous) (hFits : ¬ p.Fits b) :
    p.apply b = .error p.overrun b := by
  refine Edit.bind_eq_error.2 (.inr ⟨previous, b, Edit.check_eq_ok.2 ⟨hCheck, rfl⟩, ?_⟩)
  by_cases hEntries : p.entries.length + 1 < 2 ^ 31
  · obtain ⟨hSize, hSequence⟩ := arraySize_of_lt hEntries
    have hMax : p.maxStack b = .error .stackOverflow := by
      rw [Fits, not_and] at hFits
      obtain ⟨hSome, hDeep⟩ := not_or.1 (hFits hEntries)
      rw [maxStack, if_neg (by simpa using hSome)]
      exact if_neg hDeep
    rw [overrun, if_pos hEntries]
    refine Edit.bind_eq_error.2 (.inr ⟨_, b, Edit.check_eq_ok.2 ⟨hSize, rfl⟩, ?_⟩)
    refine Edit.bind_eq_error.2 (.inr ⟨_, b, Edit.check_eq_ok.2 ⟨hSequence, rfl⟩, ?_⟩)
    exact Edit.bind_eq_error.2 (.inl (Edit.check_eq_error.2 ⟨hMax, rfl⟩))
  · have hSize : p.arraySize = .error (.tooManyEntries p.entries.length) :=
      if_neg fun hLe => hEntries (Nat.lt_succ_of_le hLe)
    rw [overrun, if_neg hEntries]
    exact Edit.bind_eq_error.2 (.inl (Edit.check_eq_error.2 ⟨hSize, rfl⟩))

end Plan

end Patch

end IlSplice
