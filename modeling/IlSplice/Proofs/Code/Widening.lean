import IlSplice.Proofs.Code.Extent
import IlSplice.Proofs.Code.RoundTrip

/-! The rounds of the layout. They end with the least set of long forms in which one byte is enough
for every other short branch, after at most one round for each short branch and one more. -/

namespace IlSplice

namespace LongForms

variable {listing : Listing} {long settled : LongForms} {l : Layout} {far : List Handle}
  {h : Handle}

theorem size_add (long : LongForms) (far : List Handle) : (long.add far).size = long.size := by
  induction far generalizing long with
  | nil => rfl
  | cons first rest ih => rw [add, ih, Array.size_setIfInBounds]

/-- The new long forms are those that were added and were short forms of the listing before. -/
theorem mem_branches_add (hInside : ∀ x ∈ far, x < long.size) :
    h ∈ (long.add far).branches ↔ h ∈ far ∨ h ∈ long.branches := by
  rw [mem_branches, mem_branches]
  induction far generalizing long with
  | nil => simp [add]
  | cons first rest ih =>
      have hFirst := hInside first (by simp)
      rw [add, ih fun x hx => by simpa using hInside x (by simp [hx]), List.mem_cons]
      by_cases hSame : first = h
      · subst hSame
        simp [Array.getD_eq_getD_getElem?, hFirst]
      · simp [Array.getD_eq_getD_getElem?, Array.getElem?_setIfInBounds_ne hSame, Ne.symm hSame]

/-- What the rounds of the layout come to, from given long forms on, and the number of layouts that
are computed for it. -/
inductive SettlesIn (listing : Listing) :
    LongForms → Nat → Except Fault (Layout × LongForms) → Prop where
  | overflow {long : LongForms} {fault : Fault}
      (layout : Layout.ofListing listing long = .error fault) :
      SettlesIn listing long 1 (.error fault)
  | foreign {long : LongForms} {l : Layout} {fault : Fault}
      (layout : Layout.ofListing listing long = .ok l)
      (reach : long.outOfReach l listing.entries [] = .error fault) :
      SettlesIn listing long 1 (.error fault)
  | settled {long : LongForms} {l : Layout} (layout : Layout.ofListing listing long = .ok l)
      (reach : long.outOfReach l listing.entries [] = .ok []) :
      SettlesIn listing long 1 (.ok (l, long))
  | widened {long : LongForms} {l : Layout} {first : Handle} {more : List Handle} {rounds : Nat}
      {result : Except Fault (Layout × LongForms)}
      (layout : Layout.ofListing listing long = .ok l)
      (reach : long.outOfReach l listing.entries [] = .ok (first :: more))
      (later : SettlesIn listing (long.add (first :: more)) rounds result) :
      SettlesIn listing long (rounds + 1) result

theorem IsFar.lt_size {entry : Handle × Instruction} (hFar : long.IsFar l entry) :
    entry.1 < long.size := by
  obtain ⟨_, _, _, hShort, _⟩ := hFar
  exact (Array.getElem?_eq_some_iff.1 hShort).1

/-- A branch that is out of reach is not in its long form yet. -/
theorem IsFar.notMem_branches {entry : Handle × Instruction} (hFar : long.IsFar l entry) :
    entry.1 ∉ long.branches := by
  obtain ⟨_, _, _, hShort, _⟩ := hFar
  rw [mem_branches, Array.getD_eq_getD_getElem?, hShort]
  decide

theorem mem_shortBranches_of_outOfReach (hReach : long.outOfReach l listing.entries [] = .ok far)
    (hFar : h ∈ far) : h ∈ listing.shortBranches := by
  obtain ⟨i, hGet, _, _, hTarget, _⟩ := far_of_outOfReach hReach hFar
  exact Listing.mem_shortBranches.2 ⟨i, hGet, (Instruction.shortTarget?_eq_some hTarget).1⟩

/-- A round adds the branches out of reach to the long forms. -/
theorem mem_branches_round (hReach : long.outOfReach l listing.entries [] = .ok far) :
    h ∈ (long.add far).branches ↔ h ∈ far ∨ h ∈ long.branches := by
  refine mem_branches_add fun x hx => ?_
  obtain ⟨_, _, hFar⟩ := far_of_outOfReach hReach hx
  exact hFar.lt_size

/-- Every round but the last one uses up a short branch. -/
theorem settlesIn_settle (listing : Listing) (long : LongForms) :
    ∃ rounds, rounds ≤ (listing.shortBranches \ long.branches).card + 1 ∧
      SettlesIn listing long rounds (settle listing long) := by
  fun_induction settle listing long with
  | case1 long fault hLayout => exact ⟨1, by omega, .overflow hLayout⟩
  | case2 long l hLayout fault hReach => exact ⟨1, by omega, .foreign hLayout hReach⟩
  | case3 long l hLayout hReach => exact ⟨1, by omega, .settled hLayout hReach⟩
  | case4 long l hLayout first more hReach _ ih =>
      obtain ⟨rounds, hRounds, hLater⟩ := ih
      refine ⟨rounds + 1, ?_, .widened hLayout hReach hLater⟩
      obtain ⟨i, hGet, hFar⟩ := far_of_outOfReach hReach (List.mem_cons_self ..)
      have hShort := mem_shortBranches_of_outOfReach hReach (List.mem_cons_self ..)
      have hLess : (listing.shortBranches \ (long.add (first :: more)).branches).card
          < (listing.shortBranches \ long.branches).card := by
        refine Finset.card_lt_card ⟨fun x hx => ?_, fun hSame => ?_⟩
        · rw [Finset.mem_sdiff, mem_branches_round hReach, not_or] at hx
          exact Finset.mem_sdiff.2 ⟨hx.1, hx.2.2⟩
        · have hStill := hSame (Finset.mem_sdiff.2 ⟨hShort, hFar.notMem_branches⟩)
          rw [Finset.mem_sdiff, mem_branches_round hReach] at hStill
          exact hStill.2 (.inl (List.mem_cons_self ..))
      omega

theorem fitsByte_iff {n : Int} : fitsByte n = true ↔ -128 ≤ n ∧ n ≤ 127 := by
  simp [fitsByte]

/-- Where the ways in a layout lead. -/
theorem displacement_of_shortTarget? (hClosed : listing.Closed)
    (hLayout : Layout.ofListing listing long = .ok l) {i : Instruction} {target : Handle}
    (hGet : listing.get? h = some i) (hTarget : i.shortTarget? = some target) :
    l.displacement target (l.stop long h i) = .ok (listing.way long.branches h target) := by
  exact Layout.displacement_eq_way hLayout hGet (hClosed i (Array.mem_of_getElem? hGet) target
    (Instruction.mem_targets_of_shortTarget? hTarget))

/-- By induction on the rounds: a branch that is made long in some round is out of reach in every
set that contains what is long by then, since more long forms only make ways longer. So it is long
in every settled set. -/
theorem subset_of_settle (hClosed : listing.Closed)
    (hSettle : settle listing long = .ok (l, settled)) {other : Finset Handle}
    (hOther : listing.Settled other) (hBelow : long.branches ⊆ other) :
    settled.branches ⊆ other := by
  fun_induction settle listing long with
  | case1 => cases hSettle
  | case2 => cases hSettle
  | case3 =>
      cases hSettle
      exact hBelow
  | case4 long layout hLayout first more hReach _ ih =>
      refine ih hSettle fun h hMem => ?_
      rcases (mem_branches_round hReach).1 hMem with hNew | hOld
      · obtain ⟨i, hGet, target, n, hTarget, _, hWay, hFar⟩ := far_of_outOfReach hReach hNew
        rw [displacement_of_shortTarget? hClosed hLayout hGet hTarget] at hWay
        cases hWay
        -- Outside of a settled set the target would be in reach, and be it the more so now.
        by_contra hOutside
        have hFits := Listing.way_of_subset hBelow (hOther h i target hGet hTarget hOutside)
        rw [← fitsByte_iff] at hFits
        rw [hFits] at hFar
        cases hFar
      · exact hBelow hOld

theorem size_of_settle (hSettle : settle listing long = .ok (l, settled)) :
    settled.size = long.size := by
  fun_induction settle listing long with
  | case1 => cases hSettle
  | case2 => cases hSettle
  | case3 =>
      cases hSettle
      rfl
  | case4 long layout hLayout first more hReach _ ih => rw [ih hSettle, size_add]

/-- The rounds end only when no short branch is out of reach. -/
theorem settled_of_settle (hClosed : listing.Closed) (hSize : long.size = listing.slots.size)
    (hSettle : settle listing long = .ok (l, settled)) : listing.Settled settled.branches := by
  obtain ⟨hLayout, hReach⟩ := settle_eq_ok hSettle
  intro h i target hGet hTarget hOutside
  have hSlot : h < settled.size := by
    rw [size_of_settle hSettle, hSize]
    exact (Array.getElem?_eq_some_iff.1 hGet).1
  have hShort : settled[h]? = some false := by
    rw [mem_branches, Array.getD_eq_getD_getElem?, Array.getElem?_eq_getElem hSlot] at hOutside
    rw [Array.getElem?_eq_getElem hSlot]
    simpa using hOutside
  have hWay := displacement_of_shortTarget? hClosed hLayout hGet hTarget
  rw [← fitsByte_iff]
  by_contra hFar
  have hMem := (mem_outOfReach hReach).2 (.inr ⟨i, Listing.mem_entries.2 hGet, target, _, hTarget,
    hShort, hWay, Bool.eq_false_iff.2 hFar⟩)
  cases hMem

end LongForms

/-- A short branch is written in its short form only where it does not take the long one. -/
theorem Instruction.short_of_form {i : Instruction} {isLong : Bool}
    (hShort : (i.form isLong).operand = .shortBranch) :
    isLong = false ∧ i.opcode.operand = .shortBranch := by
  cases isLong with
  | false => exact ⟨rfl, hShort⟩
  | true =>
      have hForm := i.opcode.long?_form
      rw [form, if_pos rfl] at hShort
      cases hLong : i.opcode.long? with
      | none =>
          rw [hLong, Option.getD_none] at hShort
          rw [hLong, if_pos hShort] at hForm
          cases hForm
      | some long =>
          rw [hLong, Option.getD_some] at hShort
          rw [hLong, Option.map_some, hShort] at hForm
          split at hForm <;> cases hForm

section Emission

variable {σ : Type} {intern : Interner σ} {l : Layout} {long : LongForms} {s s' : σ} {x : Handle}

/-- Writing a way fails if it does not fit, or if its target is not in the listing. -/
theorem fault_of_encodeDisplacement {width : Nat} {fits : Int → Bool} {fault found : Fault}
    {goal : Handle} {next : Nat}
    (hEncode : (do encodeDisplacement width fits fault (← l.displacement goal next))
      = .error found) :
    (∃ n, l.displacement goal next = .ok n ∧ fits n = false ∧ found = fault) ∨
      found = .foreignTarget goal := by
  rcases Except.bind_eq_error.1 hEncode with hForeign | ⟨n, hWay, hRange⟩
  · unfold Layout.displacement at hForeign
    split at hForeign
    · cases hForeign
    · cases hForeign
      exact .inr rfl
  · unfold encodeDisplacement at hRange
    split at hRange
    · cases hRange
    · cases hRange
      exact .inl ⟨n, hWay, Bool.eq_false_iff.2 ‹_›, rfl⟩

/-- The fault of a short branch out of range is that of a short branch, or it comes with a literal
for which no token is found. -/
theorem Operand.encode_eq_shortBranchRange {operand : Operand} {opcode : Opcode} {h : Handle}
    {next : Nat} (hEncode : operand.encode opcode l h next intern s
      = .error (.shortBranchRange x) s') :
    (∃ text, intern text s = .error (.shortBranchRange x) s') ∨
      ∃ goal n, opcode.operand = .shortBranch ∧ operand = .target goal ∧
        l.displacement goal next = .ok n ∧ fitsByte n = false := by
  fun_cases Operand.encode operand opcode l h next intern with
  | case12 text hKind =>
      simp only [Operand.encode, hKind] at hEncode
      rcases Edit.bind_eq_error.1 hEncode with hIntern | ⟨_, _, _, hPure⟩
      · exact .inl ⟨text, hIntern⟩
      · cases hPure
  | case13 goal hKind =>
      simp only [Operand.encode, hKind] at hEncode
      rcases fault_of_encodeDisplacement (Edit.check_eq_error.1 hEncode).1 with
        ⟨n, hWay, hFits, _⟩ | hForeign
      · exact .inr ⟨goal, n, hKind, rfl, hWay, hFits⟩
      · cases hForeign
  | case14 goal hKind =>
      simp only [Operand.encode, hKind] at hEncode
      rcases fault_of_encodeDisplacement (Edit.check_eq_error.1 hEncode).1 with
        ⟨_, _, _, hOther⟩ | hForeign
      · cases hOther
      · cases hForeign
  | case15 goals hKind hCount =>
      simp only [Operand.encode, hKind, if_pos hCount] at hEncode
      rcases Except.bind_eq_error.1 (Edit.check_eq_error.1 hEncode).1 with hGoals | ⟨_, _, hPure⟩
      · obtain ⟨goal, _, hGoal⟩ := Except.mem_of_mapM_eq_error hGoals
        rcases fault_of_encodeDisplacement hGoal with ⟨_, _, _, hOther⟩ | hForeign
        · cases hOther
        · cases hForeign
      · cases hPure
  | case16 goals hKind hCount =>
      simp only [Operand.encode, hKind, if_neg hCount] at hEncode
      cases hEncode
  | case17 =>
      rw [Operand.encode] at hEncode
      · cases hEncode
      all_goals assumption
  | _ => simp only [Operand.encode, *] at hEncode; cases hEncode

/-- What is written from a layout in which the short branches that are left reach their targets. -/
theorem Encoded.emit_eq_shortBranchRange {entries : List (Handle × Instruction)} {code : Bytes}
    (hReach : ∀ entry ∈ entries, ∀ target, entry.2.shortTarget? = some target →
      long.getD entry.1 false = false → ∀ n,
      l.displacement target (l.stop long entry.1 entry.2) = .ok n → fitsByte n = true)
    (hEmit : emit l long intern entries code s = .error (.shortBranchRange x) s') :
    ∃ text middle, intern text middle = .error (.shortBranchRange x) s' := by
  induction entries generalizing code s with
  | nil => cases hEmit
  | cons entry rest ih =>
      obtain ⟨h, i⟩ := entry
      rw [List.forall_mem_cons] at hReach
      rcases Edit.bind_eq_error.1 hEmit with hOperand | ⟨_, _, _, hRest⟩
      · rcases Operand.encode_eq_shortBranchRange hOperand with
          ⟨text, hIntern⟩ | ⟨goal, n, hKind, hTarget, hWay, hFar⟩
        · exact ⟨text, s, hIntern⟩
        · obtain ⟨hShort, hOpcode⟩ := Instruction.short_of_form hKind
          have hGoal : i.shortTarget? = some goal := by
            unfold Instruction.shortTarget?
            rw [hOpcode, hTarget]
          rw [hReach.1 goal hGoal hShort n hWay] at hFar
          cases hFar
      · exact ih hReach.2 hRest

end Emission

/-- A layout fails for no other reason than its size. -/
theorem Layout.codeOverflow_of_extend {before : Layout} {long : LongForms} {fault : Fault}
    {entries : List (Handle × Instruction)}
    (hExtend : before.extend long entries = .error fault) : fault = .codeOverflow := by
  fun_induction Layout.extend before long entries with
  | case1 => cases hExtend
  | case2 _ _ _ _ _ _ ih => exact ih hExtend
  | case3 =>
      cases hExtend
      rfl

/-- Looking for branches that are out of reach fails only where the way to a target cannot be worked
out. -/
theorem LongForms.displacement_of_outOfReach_eq_error {long : LongForms} {l : Layout}
    {fault : Fault} {entries : List (Handle × Instruction)} {found : List Handle}
    (hReach : outOfReach long l entries found = .error fault) : ∃ entry ∈ entries, ∃ target,
      entry.2.shortTarget? = some target ∧
      l.displacement target (l.stop long entry.1 entry.2) = .error fault := by
  fun_induction outOfReach long l entries found with
  | case1 => cases hReach
  | case2 h i rest found target _ hTarget fault' hWay =>
      cases hReach
      exact ⟨(h, i), List.mem_cons_self .., target, hTarget, hWay⟩
  | case3 h i rest found target _ _ n _ ih =>
      obtain ⟨entry, hMem, hFault⟩ := ih hReach
      exact ⟨entry, List.mem_cons_of_mem _ hMem, hFault⟩
  | case4 h i rest found _ ih =>
      obtain ⟨entry, hMem, hFault⟩ := ih hReach
      exact ⟨entry, List.mem_cons_of_mem _ hMem, hFault⟩

/-- The ways of all branches are known if they lead to instructions of the listing. -/
theorem LongForms.exists_outOfReach {listing : Listing} (hClosed : listing.Closed)
    {long : LongForms} {l : Layout} (hLayout : Layout.ofListing listing long = .ok l) :
    ∃ far, long.outOfReach l listing.entries [] = .ok far := by
  rcases hReach : long.outOfReach l listing.entries [] with fault | far
  · obtain ⟨⟨h, i⟩, hEntry, target, hTarget, hWay⟩ := displacement_of_outOfReach_eq_error hReach
    have hGet := Listing.mem_entries.1 hEntry
    rw [displacement_of_shortTarget? hClosed hLayout hGet hTarget] at hWay
    cases hWay
  · exact ⟨far, rfl⟩

/-- Only code that grows too long keeps the rounds from coming to a layout. -/
theorem LongForms.settle_of_closed {listing : Listing} (hClosed : listing.Closed)
    (long : LongForms) : settle listing long = .error .codeOverflow ∨
      ∃ l settled, settle listing long = .ok (l, settled) := by
  fun_induction settle listing long with
  | case1 long fault hLayout => exact .inl (congrArg _ (Layout.codeOverflow_of_extend hLayout))
  | case2 long l hLayout fault hReach =>
      obtain ⟨far, hFar⟩ := exists_outOfReach hClosed hLayout
      rw [hReach] at hFar
      cases hFar
  | case3 long l _ _ => exact .inr ⟨l, long, rfl⟩
  | case4 _ _ _ _ _ _ _ ih => exact ih

/-- The rounds come to a layout if there is room for all long forms. -/
theorem LongForms.exists_settle {listing : Listing} {long : LongForms}
    (hClosed : listing.Closed)
    (hRoom : listing.extent listing.shortBranches listing.size < 0x100000000)
    (hShort : long.branches ⊆ listing.shortBranches) :
    ∃ l settled, settle listing long = .ok (l, settled) ∧
      settled.branches ⊆ listing.shortBranches := by
  fun_induction settle listing long with
  | case1 long fault hLayout =>
      obtain ⟨l, hOk⟩ :=
        Layout.exists_ofListing (Nat.lt_of_le_of_lt (listing.extent_mono hShort) hRoom)
      rw [hLayout] at hOk
      cases hOk
  | case2 long l hLayout fault hReach =>
      obtain ⟨far, hFar⟩ := exists_outOfReach hClosed hLayout
      rw [hReach] at hFar
      cases hFar
  | case3 long l _ _ => exact ⟨l, long, rfl, hShort⟩
  | case4 long l _ first more hReach _ ih =>
      refine ih fun h hMem => ?_
      rcases (mem_branches_round hReach).1 hMem with hNew | hOld
      · exact mem_shortBranches_of_outOfReach hReach hNew
      · exact hShort hOld

namespace Encoded

variable {σ : Type} {intern : Interner σ} {listing : Listing} {e : Encoded} {s s' : σ}
  {l : Layout} {long : LongForms} {interned : List (Handle × Instruction)}

/-- Each instruction starts with its opcode, in the form that was settled on. -/
theorem Written.holds_form {bs : List UInt8} {code : Bytes} {position : Nat}
    (hWritten : Written l long interned bs) (hPlaces : l.Places long position interned)
    (hHolds : code.Holds position bs) {entry : Handle × Instruction} (hMem : entry ∈ interned) :
    code.Holds (l.startOf entry.1) (entry.2.form (long.getD entry.1 false)).encode := by
  induction hWritten generalizing position with
  | nil => cases hMem
  | @cons h i bs tail rest _ length _ _ ih =>
      obtain ⟨rfl, hRest⟩ := hPlaces
      obtain ⟨hForm, hTail⟩ := Bytes.holds_append.1 hHolds
      rcases List.mem_cons.1 hMem with rfl | hMem
      · exact hForm
      · refine ih hRest ?_ hMem
        rw [Instruction.encodedSize, ← length, ← Nat.add_assoc, ← Opcode.length_encode]
        exact (Bytes.holds_append.1 hTail).2

/-- The opcodes of code that was put together, and its size. -/
theorem forms_of_ofListing (hEncode : ofListing listing intern s = .ok e s') :
    ∃ l long, LongForms.settle listing (LongForms.none listing) = .ok (l, long) ∧
      e.widened = long.branches.card ∧ e.code.size = listing.extent long.branches listing.size ∧
      ∀ h i, listing.get? h = some i → ∃ start, e.offsetOf (some h) = .ok start ∧
        e.code.Holds start (i.form (h ∈ long.branches)).encode := by
  obtain ⟨⟨l, long⟩, middle, hCheck, hRest⟩ := Edit.bind_eq_ok.1 hEncode
  obtain ⟨code, last, hEmit, hPure⟩ := Edit.bind_eq_ok.1 hRest
  obtain ⟨rfl, rfl⟩ := Edit.pure_eq_ok.1 hPure
  obtain ⟨hSettle, rfl⟩ := Edit.check_eq_ok.1 hCheck
  obtain ⟨interned, bs, hIntern, rfl, hWritten⟩ := written_of_emit hEmit
  have hLayout := (LongForms.settle_eq_ok hSettle).1
  have hPlaces := (Layout.places_of_ofListing hLayout).of_internAll hIntern
  refine ⟨l, long, hSettle, long.card_branches.symm, ?_, fun h i hGet => ?_⟩
  · rw [← Layout.size_eq_extent hLayout, hWritten.length_eq hPlaces, Nat.zero_add]
    simp
  · have hSlot := (Array.getElem?_eq_some_iff.1 hGet).1
    obtain ⟨operand, _, hInterned⟩ := Listing.mem_interned_of_get? hIntern hGet
    have hForm := hWritten.holds_form hPlaces (Bytes.holds_self bs.toArray) hInterned
    have hStart : h < l.starts.size := by rwa [Layout.size_starts_of_ofListing hLayout]
    refine ⟨l.startOf h, ?_, ?_⟩
    · rw [offsetOf, Array.getElem?_eq_getElem hStart, Layout.startOf, Array.getD_eq_getD_getElem?,
        Array.getElem?_eq_getElem hStart, Option.getD_some]
    · rw [LongForms.decide_mem_branches, Array.empty_append]
      exact hForm

/-- No short branch is out of range once the rounds are over. The fault can only come from the
tokens of literals. -/
theorem intern_of_shortBranchRange (hClosed : listing.Closed) {h : Handle}
    (hEncode : ofListing listing intern s = .error (.shortBranchRange h) s') :
    ∃ text middle, intern text middle = .error (.shortBranchRange h) s' := by
  rcases Edit.bind_eq_error.1 hEncode with hCheck | ⟨⟨l, long⟩, middle, hCheck, hRest⟩
  · have hSettle := (Edit.check_eq_error.1 hCheck).1
    rcases LongForms.settle_of_closed hClosed (LongForms.none listing) with
      hOverflow | ⟨l, long, hOk⟩
    · rw [hOverflow] at hSettle
      cases hSettle
    · rw [hOk] at hSettle
      cases hSettle
  · obtain ⟨hSettle, rfl⟩ := Edit.check_eq_ok.1 hCheck
    rcases Edit.bind_eq_error.1 hRest with hEmit | ⟨_, _, _, hPure⟩
    · refine emit_eq_shortBranchRange (fun entry hEntry target hTarget hShort n hWay => ?_) hEmit
      have hGet := Listing.mem_entries.1 hEntry
      have hLayout := (LongForms.settle_eq_ok hSettle).1
      rw [LongForms.displacement_of_shortTarget? hClosed hLayout hGet hTarget] at hWay
      cases hWay
      have hSettled :=
        LongForms.settled_of_settle hClosed (Array.size_replicate ..) hSettle
      refine LongForms.fitsByte_iff.2 (hSettled entry.1 entry.2 target hGet hTarget ?_)
      rw [LongForms.mem_branches, hShort]
      decide
    · cases hPure

/-- The rounds of the layout end, and the code that is put together has the least set of long forms
that makes one byte enough for all other short branches. It is the shortest code that comes of
widening branches. -/
theorem widened_isLeast (listing : Listing) (intern : Interner σ) (hClosed : listing.Closed) :
    (∃ rounds, rounds ≤ listing.shortBranches.card + 1 ∧
      LongForms.SettlesIn listing (LongForms.none listing) rounds
        (LongForms.settle listing (LongForms.none listing))) ∧
    (LongForms.settle listing (LongForms.none listing) = .error .codeOverflow ∨
      ∃ l long, LongForms.settle listing (LongForms.none listing) = .ok (l, long)) ∧
    (∀ s h s', ofListing listing intern s = .error (.shortBranchRange h) s' →
      ∃ text middle, intern text middle = .error (.shortBranchRange h) s') ∧
    ∀ s e s', ofListing listing intern s = .ok e s' → ∃ widened : Finset Handle,
      widened ⊆ listing.shortBranches ∧ e.widened = widened.card ∧
      (∀ h i, listing.get? h = some i → ∃ start, e.offsetOf (some h) = .ok start ∧
        e.code.Holds start (i.form (h ∈ widened)).encode) ∧
      IsLeast {long | listing.Settled long} widened ∧
      e.code.size = listing.extent widened listing.size ∧
      ∀ long, listing.Settled long → e.code.size ≤ listing.extent long listing.size := by
  refine ⟨?_, LongForms.settle_of_closed hClosed _,
    fun s h s' => intern_of_shortBranchRange hClosed, fun s e s' hEncode => ?_⟩
  · have hRounds := LongForms.settlesIn_settle listing (LongForms.none listing)
    rwa [LongForms.branches_none, Finset.sdiff_empty] at hRounds
  obtain ⟨l, long, hSettle, hWidened, hSize, hForms⟩ := forms_of_ofListing hEncode
  have hSettled : listing.Settled long.branches :=
    LongForms.settled_of_settle hClosed (Array.size_replicate ..) hSettle
  have hLeast : ∀ other, listing.Settled other → long.branches ⊆ other := fun other hOther =>
    LongForms.subset_of_settle hClosed hSettle hOther (by simp [LongForms.branches_none])
  refine ⟨long.branches, fun h hMem => ?_, hWidened, hForms, ⟨hSettled, hLeast⟩, hSize,
    fun other hOther => ?_⟩
  · have hShort := LongForms.ofShort_of_settle hSettle (LongForms.ofShort_none listing) h
      (LongForms.mem_branches.1 hMem)
    obtain ⟨i, hGet, hTarget⟩ := hShort
    obtain ⟨target, hTarget⟩ := Option.isSome_iff_exists.1 hTarget
    exact Listing.mem_shortBranches.2 ⟨i, hGet, (Instruction.shortTarget?_eq_some hTarget).1⟩
  · have hLe := listing.extent_add_le (hLeast other hOther) (Nat.zero_le listing.size)
    rw [hSize]
    simpa [Listing.extent] using hLe

/-- Two short branches over a jump table. The first one reaches its target as long as the second
one, which never does, is in its short form. -/
def crowdedTable : Listing where
  slots := #[⟨.brS, .target 3⟩, ⟨.brS, .target 4⟩, ⟨.switch, .switch (List.replicate 30 0)⟩,
    .loadInt 0, .plain .ret]
  order := [0, 1, 2, 3, 4]
  arranged := by decide

/-- The first branch is out of reach only once the second one is long, so that two rounds are
needed. -/
theorem widened_isLeast_crowdedTable : crowdedTable.Closed ∧ ∃ e s,
    ofListing crowdedTable countLiterals 0 = .ok e s ∧ ∃ widened : Finset Handle,
      widened.card = 2 ∧ IsLeast {long | crowdedTable.Settled long} widened := by
  have hClosed : crowdedTable.Closed := by
    unfold Listing.Closed
    decide
  have hTwo : ((ofListing crowdedTable countLiterals).runOn 0).1.toOption.map (·.widened)
      = some 2 := by decide +kernel
  obtain ⟨-, -, -, hCode⟩ := widened_isLeast crowdedTable countLiterals hClosed
  unfold Edit.runOn at hTwo
  split at hTwo
  · rename_i e s hEncode
    obtain ⟨widened, -, hCard, -, hLeast, -⟩ := hCode _ _ _ hEncode
    exact ⟨hClosed, e, s, hEncode, widened, hCard.symm.trans (Option.some.inj hTwo), hLeast⟩
  · cases hTwo

end Encoded

end IlSplice
