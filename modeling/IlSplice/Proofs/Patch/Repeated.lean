import IlSplice.Proofs.Patch.Patched
import IlSplice.Proofs.Patch.Shape

/-! Patches of one body after the other. Each run finds the anchors of the first one, keeps the
stores of all runs before it, and sets the size of the array anew. The size therefore is that of the
last run, and the stores of a run with more entries lead beyond it. -/

namespace IlSplice

theorem Instruction.constant?_of_calls {i : Instruction} {member : String}
    (hCalls : i.Calls member) : i.constant? = none := by
  obtain ⟨hOpcode, token, hOperand⟩ := hCalls
  rw [constant?, hOpcode, hOperand]
  exact if_neg (by decide)

namespace Listing

variable {l l' : Listing} {position first place : Nat} {new code : List Instruction}
  {changed anchor h next : Handle} {load i : Instruction} {member : String}

/-- A constant is not the call of a method. -/
theorem OnlyCall.ne_of_constant {h' : Handle} {size : Int32} (hOnly : l.OnlyCall member h)
    (hGet : l.get? h' = some i) (hConstant : i.constant? = some size) : h ≠ h' := by
  rintro rfl
  obtain ⟨call, hCall, hCalls⟩ := (hOnly _).2 rfl
  obtain rfl := Option.some.inj (hCall.symm.trans hGet)
  rw [Instruction.constant?_of_calls hCalls] at hConstant
  cases hConstant

/-- The instructions stand one directly behind the other, with handles that count up. -/
def Block (l : Listing) (first place : Nat) (code : List Instruction) : Prop :=
  ∀ d i, code[d]? = some i →
    l.order[place + d]? = some (first + d) ∧ l.get? (first + d) = some i

/-- A block of old instructions stays one, if what is inserted does not go into it. -/
theorem Spliced.block (hSpliced : l.Spliced l' position new changed load)
    (hAnchor : l.position? anchor = some position) (hBlock : l.Block first place code)
    (hBehind : anchor < first) (hUnchanged : changed < first) :
    ∃ place', l'.Block first place' code := by
  have hInside := Nat.le_of_lt (List.getElem?_eq_some_iff.1 (position?_eq_some.1 hAnchor)).1
  refine ⟨if place < position then place else place + new.length, fun d i hi => ?_⟩
  obtain ⟨hOrder, hGet⟩ := hBlock d i hi
  -- If the anchor stood behind a part of the block only, it would belong to the block.
  have hSide : place < position ↔ place + d < position := by
    refine ⟨fun hStart => Nat.lt_of_not_le fun hStop => ?_, by omega⟩
    obtain ⟨e, rfl⟩ := Nat.exists_eq_add_of_le (Nat.le_of_lt hStart)
    have hMember : e < code.length := by
      have := (List.getElem?_eq_some_iff.1 hi).1
      omega
    have hSame := (hBlock e _ (List.getElem?_eq_getElem hMember)).1
    rw [position?_eq_some.1 hAnchor] at hSame
    exact absurd (Option.some.inj hSame)
      (Nat.ne_of_lt (Nat.lt_of_lt_of_le hBehind (Nat.le_add_right ..)))
  constructor
  · split
    · rw [hSpliced.order_before hInside (hSide.1 ‹_›), hOrder]
    · rw [Nat.add_right_comm, hSpliced.order_behind hInside (by omega), hOrder]
  · rwa [hSpliced.get?_old (Array.getElem?_eq_some_iff.1 hGet).1
      (Nat.ne_of_gt (Nat.lt_of_lt_of_le hUnchanged (Nat.le_add_right ..)))]

/-- What is inserted makes up a block of its own, and so does each part of it. -/
theorem Spliced.block_new (hSpliced : l.Spliced l' position new changed load)
    (hInside : position ≤ l.order.length) {start : Nat}
    (hPart : ∀ d i, code[d]? = some i → new[start + d]? = some i) :
    l'.Block (l.slots.size + start) (position + start) code := by
  intro d i hi
  have hNew := hPart d i hi
  rw [Nat.add_assoc, Nat.add_assoc, hSpliced.get?_new]
  exact ⟨hSpliced.order_new hInside (List.getElem?_eq_some_iff.1 hNew).1, hNew⟩

/-- An instruction that was neither there before nor takes the place of another one is new. -/
theorem Spliced.get?_eq_some {h : Nat} (hSpliced : l.Spliced l' position new changed load)
    (hOther : h ≠ changed) : l'.get? h = some i ↔
      l.get? h = some i ∨ ∃ j, h = l.slots.size + j ∧ new[j]? = some i := by
  rcases Nat.lt_or_ge h l.slots.size with hOld | hNew
  · rw [hSpliced.get?_old hOld hOther, iff_self_or]
    rintro ⟨j, rfl, _⟩
    exact (Nat.not_lt.2 (Nat.le_add_right ..) hOld).elim
  · obtain ⟨j, rfl⟩ := Nat.exists_eq_add_of_le hNew
    rw [hSpliced.get?_new, get?, Array.getElem?_eq_none (Nat.le_add_right ..)]
    simp

/-- The only call stays the only one, if none is added and none taken away. -/
theorem Spliced.onlyCall (hSpliced : l.Spliced l' position new changed load)
    (hOnly : l.OnlyCall member h) (hNew : ∀ i ∈ new, ¬ i.Calls member)
    (hLoad : ¬ load.Calls member) (hChanged : h ≠ changed) : l'.OnlyCall member h := by
  intro h'
  by_cases hSame : h' = changed
  · subst hSame
    rw [hSpliced.get?_changed]
    refine iff_of_false ?_ hChanged.symm
    rintro ⟨i, hGet, hCalls⟩
    exact hLoad (Option.some.inj hGet ▸ hCalls)
  · rw [← hOnly h']
    refine exists_congr fun i => and_congr_left fun hCalls => ?_
    rw [hSpliced.get?_eq_some hSame, or_iff_left]
    rintro ⟨j, _, hMem⟩
    exact hNew i (List.mem_of_getElem? hMem) hCalls

/-- What stands behind an instruction still does, unless it is the one that is inserted in front
of. -/
theorem Spliced.next?_old (hSpliced : l.Spliced l' position new changed load)
    (hAnchor : l.position? anchor = some position) (hNext : l.next? h = some next)
    (hOther : next ≠ anchor) : l'.next? h = some next := by
  have hInside := Nat.le_of_lt (List.getElem?_eq_some_iff.1 (position?_eq_some.1 hAnchor)).1
  obtain ⟨k, hFirst, hSecond⟩ := next?_eq_some.1 hNext
  have hApart : k + 1 ≠ position := by
    rintro rfl
    exact hOther (Option.some.inj (hSecond.symm.trans (position?_eq_some.1 hAnchor)))
  refine next?_eq_some.2 ?_
  rcases Nat.lt_or_ge k position with hBefore | hBehind
  · refine ⟨k, ?_, ?_⟩
    · rw [hSpliced.order_before hInside hBefore, hFirst]
    · rw [hSpliced.order_before hInside (by omega), hSecond]
  · refine ⟨k + new.length, ?_, ?_⟩
    · rw [hSpliced.order_behind hInside hBehind, hFirst]
    · rw [Nat.add_right_comm, hSpliced.order_behind hInside (by omega), hSecond]

end Listing

namespace Patch

open Listing

variable {p : Plan} {b b' : MethodBody} {previous : Int32} {position : Nat}
  {injectionMember sizeMember : String} {lists : List (List String)} {last : List String}
  {index : Int32} {entry : String}

/-- Among the four instructions of a store only the second one loads a number. -/
theorem getElem?_store_eq_loadInt {stored : Int32} {d : Nat}
    (hLoad : (store stored entry)[d]? = some (.loadInt index)) : d = 1 ∧ index = stored := by
  match d with
  | 0 => cases hLoad
  | 1 =>
      cases hLoad
      exact ⟨rfl, rfl⟩
  | 2 => cases hLoad
  | 3 => cases hLoad
  | _ + 4 => cases hLoad

theorem getElem?_store_eq_loadText {stored : String} {d : Nat}
    (hText : (store index stored)[d]? = some (.loadText entry)) : d = 2 ∧ entry = stored := by
  match d with
  | 0 => cases hText
  | 1 => cases hText
  | 2 =>
      cases hText
      exact ⟨rfl, rfl⟩
  | 3 => cases hText
  | _ + 4 => cases hText

/-- Every instruction of the stores belongs to the store of one entry. -/
theorem exists_of_storesFrom {entries : List String} {start k : Nat} {i : Instruction}
    (hMem : (storesFrom start entries)[k]? = some i) :
    ∃ j d entry, k = 4 * j + d ∧ d < 4 ∧ entries[j]? = some entry ∧
      (store (Int32.ofNat (start + j)) entry)[d]? = some i := by
  have hInside := (List.getElem?_eq_some_iff.1 hMem).1
  rw [length_storesFrom] at hInside
  have hEntry := List.getElem?_eq_getElem (show k / 4 < entries.length by omega)
  have hRest := Nat.mod_lt k (show 4 > 0 by decide)
  refine ⟨k / 4, k % 4, _, (Nat.div_add_mod k 4).symm, hRest, hEntry, ?_⟩
  rw [← storesFrom_getElem? hEntry hRest, Nat.div_add_mod, hMem]

namespace Plan

/-- The injection is a call, and the size is loaded by none. -/
theorem Applied.injection_ne_size (hApplied : p.Applied b b' previous position)
    (hInjection : b.listing.OnlyCall injectionMember p.anchors.injection) :
    p.anchors.injection ≠ p.anchors.size := by
  obtain ⟨⟨i, hGet, hConstant⟩, _, _⟩ := check_eq_ok.1 hApplied.checked
  exact hInjection.ne_of_constant hGet hConstant

/-- A patched listing has the anchors that it had before. -/
theorem Applied.locate (hApplied : p.Applied b b' previous position)
    (hLocated : Anchors.locate b.listing injectionMember sizeMember = .ok p.anchors) :
    Anchors.locate b'.listing injectionMember sizeMember = .ok p.anchors := by
  obtain ⟨hInjection, call, hSizeCall, hNext⟩ := Anchors.locate_eq_ok.1 hLocated
  obtain ⟨⟨size, hSize, hConstant⟩, _, _⟩ := check_eq_ok.1 hApplied.checked
  have hOnly : ∀ member h, b.listing.OnlyCall member h → b'.listing.OnlyCall member h := by
    intro member h hOnly
    refine hApplied.spliced.onlyCall hOnly ?_ ?_ ?_
    · rintro i hMem ⟨hOpcode, _⟩
      obtain ⟨_, hStore⟩ := targets_of_mem_storesFrom hMem
      simp [hOpcode] at hStore
    · exact fun ⟨hOpcode, _⟩ => nomatch hOpcode
    · exact hOnly.ne_of_constant hSize hConstant
  refine Anchors.locate_eq_ok.2 ⟨hOnly _ _ hInjection, call, hOnly _ _ hSizeCall, ?_⟩
  exact hApplied.spliced.next?_old hApplied.position_eq hNext
    (hApplied.injection_ne_size hInjection).symm

end Plan

/-- Both anchors are instructions of the listing. -/
theorem Anchors.lt_of_locate {l : Listing} {anchors : Anchors}
    (hLocated : locate l injectionMember sizeMember = .ok anchors) :
    anchors.injection < l.slots.size ∧ anchors.size < l.slots.size := by
  obtain ⟨hInjection, _, _, hNext⟩ := locate_eq_ok.1 hLocated
  obtain ⟨i, hGet, _⟩ := (hInjection _).2 rfl
  obtain ⟨_, _, hOrder⟩ := next?_eq_some.1 hNext
  exact ⟨(Array.getElem?_eq_some_iff.1 hGet).1, l.mem_order.1 (List.mem_of_getElem? hOrder)⟩

/-- Patches of a body, one for each list of entries, all of which succeed. -/
inductive Runs (injectionMember sizeMember : String) (b : MethodBody) :
    List (List String) → MethodBody → Prop where
  | none : Runs injectionMember sizeMember b [] b
  | patch {middle b' : MethodBody} {lists : List (List String)} {entries : List String}
      {anchors : Anchors} {outcome : Outcome}
      (prior : Runs injectionMember sizeMember b lists middle)
      (located : Anchors.locate middle.listing injectionMember sizeMember = .ok anchors)
      (applied : (Plan.mk entries anchors).apply middle = .ok outcome b') :
      Runs injectionMember sizeMember b (lists ++ [entries]) b'

/-- The later listing stores an entry at an index, by instructions that the one before does not
have. -/
def AddedStore (l l' : Listing) (index : Int32) (entry : String) : Prop :=
  ∃ first place, l.slots.size ≤ first ∧ l'.Block first place (store index entry)

namespace Runs

/-- What is found in the end was found in the beginning, and no instruction is taken away. -/
theorem locate_of_locate (hRuns : Runs injectionMember sizeMember b lists b') {anchors : Anchors}
    (hLocated : Anchors.locate b'.listing injectionMember sizeMember = .ok anchors) :
    Anchors.locate b.listing injectionMember sizeMember = .ok anchors ∧
      b.listing.slots.size ≤ b'.listing.slots.size := by
  induction hRuns with
  | none => exact ⟨hLocated, le_rfl⟩
  | patch prior located applied ih =>
      obtain ⟨_, _, hApplied, _⟩ := Plan.applied_of_apply applied
      obtain rfl := Except.ok.inj (hLocated.symm.trans (hApplied.locate located))
      obtain ⟨hFirst, hSize⟩ := ih located
      rw [hApplied.spliced.size_slots]
      exact ⟨hFirst, by omega⟩

/-- What a run stores is still stored after all runs behind it. -/
theorem addedStore (hRuns : Runs injectionMember sizeMember b lists b') {entries : List String}
    (hMem : entries ∈ lists) {j : Nat} (hEntry : entries[j]? = some entry) :
    AddedStore b.listing b'.listing (Int32.ofNat (j + 1)) entry := by
  induction hRuns with
  | none => cases hMem
  | @patch middle b' lists added anchors outcome prior located applied ih =>
      obtain ⟨_, position, hApplied, _⟩ := Plan.applied_of_apply applied
      obtain ⟨hFirst, hSize⟩ := prior.locate_of_locate located
      rcases List.mem_append.1 hMem with hBefore | hLast
      · obtain ⟨first, place, hBehind, hBlock⟩ := ih hBefore
        obtain ⟨hInjection, hChanged⟩ := Anchors.lt_of_locate hFirst
        obtain ⟨place', hBlock'⟩ := hApplied.spliced.block hApplied.position_eq hBlock
          (Nat.lt_of_lt_of_le hInjection hBehind) (Nat.lt_of_lt_of_le hChanged hBehind)
        exact ⟨first, place', hBehind, hBlock'⟩
      · obtain rfl := List.mem_singleton.1 hLast
        have hInside := Nat.le_of_lt
          (List.getElem?_eq_some_iff.1 (position?_eq_some.1 hApplied.position_eq)).1
        refine ⟨middle.listing.slots.size + 4 * j, position + 4 * j,
          Nat.le_add_right_of_le hSize, hApplied.spliced.block_new hInside fun d i hi => ?_⟩
        rw [storesFrom_getElem? hEntry (List.getElem?_eq_some_iff.1 hi).1, Nat.add_comm 1 j, hi]

/-- A constant behind the instructions of the first body is the index of a store, and the text
behind it is the entry of that store. -/
theorem exists_of_get? (hRuns : Runs injectionMember sizeMember b lists b') {h : Nat}
    (hBehind : b.listing.slots.size ≤ h) (hLoad : b'.listing.get? h = some (.loadInt index))
    (hText : b'.listing.get? (h + 1) = some (.loadText entry)) :
    ∃ entries ∈ lists, ∃ j, entries[j]? = some entry ∧ index = Int32.ofNat (j + 1) := by
  induction hRuns with
  | none => exact absurd (Array.getElem?_eq_some_iff.1 hLoad).1 (Nat.not_lt.2 hBehind)
  | @patch middle b' lists added anchors outcome prior located applied ih =>
      obtain ⟨_, position, hApplied, _⟩ := Plan.applied_of_apply applied
      have hChanged := Nat.lt_of_lt_of_le
        (Anchors.lt_of_locate (prior.locate_of_locate located).1).2 hBehind
      have hSpliced := hApplied.spliced
      rw [hSpliced.get?_eq_some (Nat.ne_of_gt hChanged)] at hLoad
      rw [hSpliced.get?_eq_some (Nat.ne_of_gt (Nat.lt_succ_of_lt hChanged))] at hText
      rcases hLoad with hOld | ⟨k, rfl, hNew⟩
      · rcases hText with hOldText | ⟨k, hEdge, hNewText⟩
        · obtain ⟨entries, hMem, hStored⟩ := ih hOld hOldText
          exact ⟨entries, List.mem_append_left _ hMem, hStored⟩
        · obtain ⟨j, d, _, rfl, _, _, hStored⟩ := exists_of_storesFrom hNewText
          obtain ⟨rfl, _⟩ := getElem?_store_eq_loadText hStored
          have hSlot : h < middle.listing.slots.size := (Array.getElem?_eq_some_iff.1 hOld).1
          omega
      · obtain ⟨j, d, stored, rfl, _, hEntry, hIndex⟩ := exists_of_storesFrom hNew
        obtain ⟨rfl, rfl⟩ := getElem?_store_eq_loadInt hIndex
        rcases hText with hOldText | ⟨k, hSame, hNewText⟩
        · have hSlot := (Array.getElem?_eq_some_iff.1 hOldText).1
          omega
        · obtain ⟨j', d, stored', rfl, _, hEntry', hStored⟩ := exists_of_storesFrom hNewText
          obtain ⟨rfl, rfl⟩ := getElem?_store_eq_loadText hStored
          obtain rfl : j' = j := by omega
          refine ⟨added, List.mem_append_right _ (List.mem_singleton_self _), j', hEntry', ?_⟩
          rw [Nat.add_comm 1 j']

/-- By induction on the runs. A store that is found in the end was added by one of them, and no
later run takes it apart. -/
theorem addedStore_iff (hRuns : Runs injectionMember sizeMember b lists b') :
    AddedStore b.listing b'.listing index entry ↔
      ∃ entries ∈ lists, ∃ j, entries[j]? = some entry ∧ index = Int32.ofNat (j + 1) := by
  constructor
  · rintro ⟨first, place, hBehind, hBlock⟩
    exact hRuns.exists_of_get? (Nat.le_add_right_of_le hBehind) (hBlock 1 _ rfl).2
      (hBlock 2 _ rfl).2
  · rintro ⟨entries, hMem, j, hEntry, rfl⟩
    exact hRuns.addedStore hMem hEntry

/-- No run has more entries than there are indices. -/
theorem length_le (hRuns : Runs injectionMember sizeMember b lists b') :
    ∀ entries ∈ lists, entries.length + 1 ≤ maxSize := by
  induction hRuns with
  | none => exact fun _ hMem => nomatch hMem
  | patch prior located applied ih =>
      obtain ⟨_, _, hApplied, _⟩ := Plan.applied_of_apply applied
      intro entries hMem
      rcases List.mem_append.1 hMem with hBefore | hLast
      · exact ih entries hBefore
      · obtain rfl := List.mem_singleton.1 hLast
        exact hApplied.entries_le

/-- The last run sets the size of the array. -/
theorem size_of_last (hRuns : Runs injectionMember sizeMember b (lists ++ [last]) b') :
    ∃ anchors, Anchors.locate b'.listing injectionMember sizeMember = .ok anchors ∧
      b'.listing.get? anchors.size = some (.loadInt (Int32.ofNat (last.length + 1))) := by
  generalize hAll : lists ++ [last] = all at hRuns
  cases hRuns with
  | none => simp at hAll
  | patch prior located applied =>
      obtain ⟨rfl, hSame⟩ := List.append_inj' hAll rfl
      obtain rfl := List.head_eq_of_cons_eq hSame
      obtain ⟨_, _, hApplied, _⟩ := Plan.applied_of_apply applied
      exact ⟨_, hApplied.locate located, hApplied.spliced.get?_changed⟩

end Runs

/-- Sizes that can be loaded are not negative. -/
theorem toInt_ofNat_of_le {n : Nat} (hFits : n ≤ maxSize) : (Int32.ofNat n).toInt = n :=
  Int32.toInt_ofNat_of_lt (Nat.lt_succ_of_le hFits)

/-- After patches one behind the other the array is as long as the last of them makes it, and what
all of them store is stored from index one on. It is stored inside the array exactly if no run had
more entries than the last one. -/
theorem Runs.addedStore_lt_size_iff
    (hRuns : Runs injectionMember sizeMember b (lists ++ [last]) b') :
    ∃ anchors size, Anchors.locate b'.listing injectionMember sizeMember = .ok anchors ∧
      (b'.listing.get? anchors.size).bind (·.constant?) = some size ∧
      size.toInt = last.length + 1 ∧
      (∀ index entry, AddedStore b.listing b'.listing index entry ↔
        ∃ entries ∈ lists ++ [last], ∃ j : Nat, entries[j]? = some entry ∧ index.toInt = j + 1) ∧
      (∀ index entry, AddedStore b.listing b'.listing index entry → 1 ≤ index) ∧
      ((∀ index entry, AddedStore b.listing b'.listing index entry → index < size) ↔
        ∀ entries ∈ lists, entries.length ≤ last.length) := by
  obtain ⟨anchors, hLocated, hSize⟩ := hRuns.size_of_last
  have hFits := hRuns.length_le
  have hLast := toInt_ofNat_of_le (hFits last (List.mem_append_right _ (List.mem_singleton_self _)))
  have hIndex : ∀ entries ∈ lists ++ [last], ∀ j < entries.length,
      (Int32.ofNat (j + 1)).toInt = j + 1 := by
    intro entries hMem j hj
    have := hFits entries hMem
    exact_mod_cast toInt_ofNat_of_le (show j + 1 ≤ maxSize by omega)
  have hStores : ∀ index entry, AddedStore b.listing b'.listing index entry ↔
      ∃ entries ∈ lists ++ [last], ∃ j : Nat, entries[j]? = some entry ∧
        index.toInt = j + 1 := by
    intro index entry
    rw [hRuns.addedStore_iff]
    refine exists_congr fun entries => and_congr_right fun hMem => exists_congr fun j =>
      and_congr_right fun hEntry => ?_
    rw [← Int32.toInt_inj, hIndex entries hMem j (List.getElem?_eq_some_iff.1 hEntry).1]
  refine ⟨anchors, Int32.ofNat (last.length + 1), hLocated, by rw [hSize]; rfl, hLast, hStores,
    fun index entry hAdded => ?_, fun hAll entries hMem => ?_, fun hShort index entry hAdded => ?_⟩
  · obtain ⟨_, _, j, _, hEq⟩ := (hStores index entry).1 hAdded
    rw [Int32.le_iff_toInt_le, hEq]
    exact Int.le_add_of_nonneg_left (Int.natCast_nonneg j)
  · -- The last entry of a list is stored at the index that is its length.
    rcases entries.eq_nil_or_concat with rfl | ⟨front, entry, rfl⟩
    · exact Nat.zero_le _
    · have hMem' := List.mem_append_left [last] hMem
      have hStored := hAll _ entry (hRuns.addedStore hMem' (j := front.length) (by simp))
      rw [Int32.lt_iff_toInt_lt, hLast, hIndex _ hMem' _ (by simp)] at hStored
      simp only [List.concat_eq_append, List.length_append, List.length_singleton]
      omega
  · obtain ⟨entries, hMem, j, hEntry, hEq⟩ := (hStores index entry).1 hAdded
    have hInside := (List.getElem?_eq_some_iff.1 hEntry).1
    have hLength : entries.length ≤ last.length := by
      rcases List.mem_append.1 hMem with hBefore | hSame
      · exact hShort entries hBefore
      · rw [List.mem_singleton.1 hSame]
    rw [Int32.lt_iff_toInt_lt, hEq, hLast]
    omega

/-- Code that creates an array of one element and passes it on. -/
def startup : MethodBody where
  maxStack := 8
  locals := .null
  initLocals := false
  listing := .ofArray #[⟨.call, .method ⟨.null, "add_eventLogMessage"⟩⟩, .plain .ldcI41,
    ⟨.newarr, .token .null⟩, ⟨.call, .method ⟨.null, "SetAdditionalAssemblies"⟩⟩, .plain .ret]
  handlers := []

/-- The run with more entries comes last, so that all stores are within the size. -/
theorem Runs.addedStore_lt_size_iff_startup :
    ∃ b' anchors size,
      Runs "SetAdditionalAssemblies" "add_eventLogMessage" startup [["c"], ["a", "b"]] b' ∧
      Anchors.locate b'.listing "SetAdditionalAssemblies" "add_eventLogMessage" = .ok anchors ∧
      (b'.listing.get? anchors.size).bind (·.constant?) = some size ∧ size.toInt = 3 ∧
      ∀ index entry, AddedStore startup.listing b'.listing index entry →
        1 ≤ index ∧ index < size := by
  have hRuns : ∃ b', Runs "SetAdditionalAssemblies" "add_eventLogMessage" startup
      ([["c"]] ++ [["a", "b"]]) b' := ⟨_, .patch (.patch .none rfl rfl) rfl rfl⟩
  obtain ⟨b', hRuns⟩ := hRuns
  obtain ⟨anchors, size, hLocated, hSize, hLast, _, hFirst, hInside⟩ :=
    hRuns.addedStore_lt_size_iff
  exact ⟨b', anchors, size, hRuns, hLocated, hSize, hLast, fun index entry hAdded =>
    ⟨hFirst index entry hAdded, hInside.2 (by decide) index entry hAdded⟩⟩

/-- A second run with fewer entries leaves stores of the first one beyond the end of the array. -/
theorem not_addedStore_lt_size :
    ¬ ∀ (injectionMember sizeMember : String) (b b' : MethodBody) (lists : List (List String))
      (anchors : Anchors) (size : Int32),
      Runs injectionMember sizeMember b lists b' → lists ≠ [] →
      Anchors.locate b'.listing injectionMember sizeMember = .ok anchors →
      (b'.listing.get? anchors.size).bind (·.constant?) = some size →
      ∀ index entry, AddedStore b.listing b'.listing index entry → 1 ≤ index ∧ index < size := by
  intro hAll
  have hRuns : ∃ b', Runs "SetAdditionalAssemblies" "add_eventLogMessage" startup
        ([["a", "b"]] ++ [["c"]]) b' ∧
      Anchors.locate b'.listing "SetAdditionalAssemblies" "add_eventLogMessage" = .ok ⟨3, 1⟩ ∧
      (b'.listing.get? 1).bind (·.constant?) = some 2 :=
    ⟨_, .patch (.patch .none rfl rfl) rfl rfl, rfl, rfl⟩
  obtain ⟨b', hRuns, hLocated, hSize⟩ := hRuns
  have hStored : AddedStore startup.listing b'.listing 2 "b" :=
    hRuns.addedStore (show ["a", "b"] ∈ _ from List.mem_cons_self) (j := 1) rfl
  have hInside := (hAll _ _ _ _ _ _ _ hRuns (by decide) hLocated hSize 2 "b" hStored).2
  exact absurd hInside (by decide)

end Patch

end IlSplice
