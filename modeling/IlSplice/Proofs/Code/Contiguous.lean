import IlSplice.Proofs.Code.Composition
import IlSplice.Proofs.Code.Literals
import IlSplice.Proofs.Code.Widening

/-! When code can be put together, and where its instructions then stand. -/

namespace IlSplice

/-- The long form of a short branch takes the same operands. -/
theorem Instruction.isOf_form_iff {i : Instruction} {isLong : Bool} {operand : Operand} :
    operand.IsOf (i.form isLong).operand ↔ operand.IsOf i.opcode.operand := by
  have hForm := i.opcode.long?_form
  unfold form
  cases isLong with
  | false => rfl
  | true =>
      rw [if_pos rfl]
      cases hLong : i.opcode.long? with
      | none => rfl
      | some long =>
          rw [hLong, Option.map_some] at hForm
          split at hForm
          · rename_i hShort
            rw [Option.getD_some, Option.some.inj hForm, hShort]
            constructor <;> rintro ⟨⟩ <;> constructor
          · cases hForm

namespace Operand

/-- An operand of the kind has a spelling if there is a place for the ways to its targets. -/
theorem exists_spelt {operand : Operand} {kind : OperandKind} {start : Handle → Nat} {next : Nat}
    (hIs : operand.IsOf kind) (hCount : operand.targets.length < 0x100000000)
    (hByte : kind = .shortBranch → ∀ target ∈ operand.targets,
      fitsByte ((start target : Int) - next) = true)
    (hWord : ∀ target ∈ operand.targets, fitsWord ((start target : Int) - next) = true) :
    ∃ bs, RawOperand.Spelt next bs (operand.raw start) kind := by
  cases hIs with
  | none => exact ⟨[], rfl, rfl⟩
  | shortBranch goal =>
      obtain ⟨value, hValue⟩ :=
        fitsByte_iff_exists.1 (hByte rfl goal (List.mem_singleton_self goal))
      exact ⟨_, value, rfl, congrArg RawOperand.target (by omega)⟩
  | branch goal =>
      obtain ⟨value, hValue⟩ := fitsWord_iff_exists.1 (hWord goal (List.mem_singleton_self goal))
      exact ⟨_, value, rfl, congrArg RawOperand.target (by omega)⟩
  | switch goals =>
      choose! value hValue using fun goal hMem => fitsWord_iff_exists.1 (hWord goal hMem)
      refine ⟨_, goals.map value, by rwa [List.length_map], rfl, congrArg RawOperand.switch ?_⟩
      rw [List.map_map]
      refine List.map_congr_left fun goal hMem => ?_
      have := hValue goal hMem
      dsimp only [Function.comp_apply]
      omega
  | _ => exact ⟨_, _, rfl, rfl⟩

/-- A jump table takes four bytes for its length and for each target, whatever form branches are in.
-/
theorem encodedSize_switch {opcode : Opcode} (hKind : opcode.operand = .switch)
    (goals : List Handle) : (switch goals).encodedSize opcode = 4 + 4 * goals.length := by
  simp [encodedSize, hKind]

/-- An instruction has no more targets than bytes, so that the number of targets fits whenever the
code does. -/
theorem length_targets_le {operand : Operand} {opcode : Opcode}
    (hIs : operand.IsOf opcode.operand) : operand.targets.length ≤ operand.encodedSize opcode := by
  generalize hKind : opcode.operand = kind at hIs
  cases hIs with
  | switch goals =>
      rw [encodedSize_switch hKind, targets]
      omega
  | shortBranch | branch =>
      rw [encodedSize_of_kind hKind rfl (by decide)]
      simp [targets]
  | _ => exact Nat.zero_le _

end Operand

/-- In the layout that was settled on, an instruction with an operand of its kind has a spelling. -/
theorem Instruction.exists_spelt {listing : Listing} {l : Layout} {long : LongForms} {h : Handle}
    {i : Instruction} {operand : Operand} (hClosed : listing.Closed)
    (hSettle : LongForms.settle listing (LongForms.none listing) = .ok (l, long))
    (hSize : l.size < 0x80000000) (hGet : listing.get? h = some i)
    (hIs : i.operand.IsOf i.opcode.operand) (hInterned : i.operand.IsInterned operand) :
    ∃ bs, RawOperand.Spelt (l.stop long h i) bs (operand.raw l.startOf)
      (i.form (long.getD h false)).operand := by
  have hLayout := (LongForms.settle_eq_ok hSettle).1
  have hStop := Layout.stop_le_size hLayout hGet
  have hForm : i.operand.IsOf (i.form (long.getD h false)).operand := isOf_form_iff.2 hIs
  refine Operand.exists_spelt (hInterned.isOf_iff.2 hForm) ?_ ?_ ?_ <;> rw [hInterned.targets_eq]
  · have := Operand.length_targets_le hForm
    rw [Layout.stop, encodedSize] at hStop
    omega
  · intro hShort target hTarget
    obtain ⟨hLong, hOpcode⟩ := short_of_form hShort
    obtain ⟨goal, hGoal⟩ : ∃ goal, i.shortTarget? = some goal := by
      unfold shortTarget?
      rw [hOpcode] at hIs ⊢
      generalize i.operand = operand at hIs
      cases hIs
      exact ⟨_, rfl⟩
    rw [(shortTarget?_eq_some hGoal).2] at hTarget
    obtain rfl := List.mem_singleton.1 hTarget
    have hWay := LongForms.displacement_of_shortTarget? hClosed hLayout hGet hGoal
    rw [← (Layout.displacement_eq_ok.1 hWay).2]
    have hSettled := LongForms.settled_of_settle hClosed (Array.size_replicate ..) hSettle
    refine LongForms.fitsByte_iff.2 (hSettled h i target hGet hGoal ?_)
    rw [LongForms.mem_branches, hLong]
    decide
  · intro target hTarget
    have := Layout.startOf_le_size hLayout (hClosed i (Array.mem_of_getElem? hGet) target hTarget)
    rw [fitsWord, Bool.and_eq_true, decide_eq_true_eq, decide_eq_true_eq]
    omega

namespace Encoded

variable {σ : Type} {intern : Interner σ} {listing : Listing} {e : Encoded} {s s' : σ}
  {l : Layout} {long : LongForms} {interned : List (Handle × Instruction)}

/-- The instruction at each position of the layout order takes exactly the bytes from its own
offset up to that of the next one, or up to the end of the code. -/
structure Tiles (e : Encoded) (listing : Listing) (long : LongForms)
    (interned : List (Handle × Instruction)) : Prop where
  first : e.offsetOf (listing.handleAt? 0) = .ok 0
  last : e.offsetOf none = .ok e.code.size
  instruction : ∀ k h, listing.handleAt? k = some h → ∃ i operand start stop,
    listing.get? h = some i ∧ i.operand.IsInterned operand ∧
    interned[k]? = some (h, ⟨i.opcode, operand⟩) ∧
    e.offsetOf (some h) = .ok start ∧ e.offsetOf (listing.handleAt? (k + 1)) = .ok stop ∧
    RawInstruction.Spelt start (e.code.extract start stop).toList
      ⟨start, stop - start, i.form (long.getD h false), operand.raw (e.starts.getD · 0)⟩

/-- The offsets that are handed out are those of the sequence, because both go by one layout. -/
theorem tiles_of_sequence (hIntern : listing.interned intern s = .ok interned s')
    (hStarts : e.starts = l.starts) (hSlots : l.starts.size = listing.slots.size)
    (hSequence : RawInstruction.Sequence 0 e.code.toList
      (interned.map fun entry => entry.2.raw l long entry.1)) :
    e.Tiles listing long interned := by
  have hOrder := (Listing.map_fst_of_internAll hIntern).trans listing.map_fst_entries
  have hOffset : ∀ k, e.offsetOf (listing.handleAt? k) = .ok
      (((interned.map fun entry => entry.2.raw l long entry.1)[k]?.map (·.offset)).getD
        e.code.size) := by
    intro k
    rw [Listing.handleAt?, ← hOrder, List.getElem?_map, List.getElem?_map]
    cases hEntry : interned[k]? with
    | none => rfl
    | some entry =>
        have hSlot : entry.1 < l.starts.size := by
          rw [hSlots, ← listing.mem_order, ← hOrder]
          exact List.mem_map_of_mem (List.mem_of_getElem? hEntry)
        simp [offsetOf, hStarts, Instruction.raw, Layout.startOf, Array.getD_eq_getD_getElem?,
          hSlot]
  refine ⟨?_, rfl, fun k h hHandle => ?_⟩
  · rw [hOffset]
    have hFirst := hSequence.head_offset
    rw [Nat.zero_add, Array.length_toList] at hFirst
    rw [hFirst]
  · obtain ⟨i, operand, hGet, hOperand, hEntry⟩ := Listing.interned_of_handleAt? hIntern hHandle
    have hRaw : (interned.map fun entry => entry.2.raw l long entry.1)[k]?
        = some (Instruction.raw l long h ⟨i.opcode, operand⟩) := by
      rw [List.getElem?_map, hEntry, Option.map_some]
    obtain ⟨hSpelt, hNext⟩ := hSequence.spelt_extract hRaw
    have hStart := hOffset k
    rw [hHandle, hRaw, Option.map_some, Option.getD_some] at hStart
    have hStop := hOffset (k + 1)
    rw [hNext] at hStop
    refine ⟨_, operand, _, _, hGet, hOperand, hEntry, hStart, hStop, ?_⟩
    rw [Nat.add_sub_cancel_left, hStarts]
    exact hSpelt

/-- Where there is room for all long forms, nothing but the documented reasons keeps code from being
put together. -/
theorem exists_encoded (hRoom : listing.extent listing.shortBranches listing.size < 0x80000000)
    (hIs : ∀ i ∈ listing.slots, i.operand.IsOf i.opcode.operand) (hClosed : listing.Closed)
    (hIntern : listing.interned intern s = .ok interned s') :
    ∃ e, ofListing listing intern s = .ok e s' := by
  obtain ⟨l, long, hSettle, hShort⟩ :=
    LongForms.exists_settle hClosed (Nat.lt_trans hRoom (by decide))
      (LongForms.branches_none listing ▸ Finset.empty_subset _)
  have hLayout := (LongForms.settle_eq_ok hSettle).1
  have hSize : l.size < 0x80000000 :=
    Layout.size_eq_extent hLayout ▸ Nat.lt_of_le_of_lt (listing.extent_mono hShort) hRoom
  obtain ⟨bs, hSequence⟩ := RawInstruction.exists_sequence
    ((Layout.places_of_ofListing hLayout).of_internAll hIntern) fun entry hMem => by
      obtain ⟨i, operand, hGet, hOperand, hEntry⟩ := Listing.get?_of_mem_interned hIntern hMem
      rw [hEntry, Instruction.stop_of_isInterned hOperand]
      exact Instruction.exists_spelt hClosed hSettle hSize hGet
        (hIs i (Array.mem_of_getElem? hGet)) hOperand
  refine ⟨⟨bs.toArray, long.count true, l.starts⟩, ofListing_eq_ok.2 ⟨l, long, interned, hSettle,
    hIntern, fun entry hMem target hTarget => ?_, by simpa using hSequence, rfl, rfl⟩⟩
  obtain ⟨i, operand, hGet, hOperand, hEntry⟩ := Listing.get?_of_mem_interned hIntern hMem
  rw [hEntry, Instruction.targets, hOperand.targets_eq] at hTarget
  rw [Layout.size_starts_of_ofListing hLayout]
  exact hClosed i (Array.mem_of_getElem? hGet) target hTarget

/-- In code that was put together every operand is of its kind, and every branch leads to an
instruction. -/
theorem closed_of_ofListing (hEncode : ofListing listing intern s = .ok e s') :
    (∀ i ∈ listing.slots, i.operand.IsOf i.opcode.operand) ∧ listing.Closed := by
  obtain ⟨l, long, interned, hSettle, hIntern, hTargets, hSequence, _⟩ := ofListing_eq_ok.1 hEncode
  suffices ∀ i ∈ listing.slots, i.operand.IsOf i.opcode.operand ∧
      ∀ target ∈ i.targets, target < listing.slots.size from
    ⟨fun i hMem => (this i hMem).1, fun i hMem => (this i hMem).2⟩
  intro i hMem
  obtain ⟨h, hGet⟩ := Array.mem_iff_getElem?.1 hMem
  obtain ⟨operand, hOperand, hInterned⟩ := Listing.mem_interned_of_get? hIntern hGet
  refine ⟨?_, fun target hTarget => ?_⟩
  · obtain ⟨_, hSpelt⟩ := hSequence.spelt_of_mem (List.mem_map_of_mem hInterned)
    obtain ⟨_, _, hSpelt⟩ := Instruction.spelt_raw_iff.1 hSpelt
    exact hOperand.isOf_iff.1 (Instruction.isOf_form_iff.1 (Operand.isOf_of_spelt hSpelt))
  · rw [← Layout.size_starts_of_ofListing (LongForms.settle_eq_ok hSettle).1]
    refine hTargets _ hInterned target ?_
    rwa [Instruction.targets, hOperand.targets_eq]

/-- Where there is room for all long forms, code is put together exactly if every operand is of the
kind that its opcode takes, every branch leads to an instruction of the listing, and there is a
token for every literal that has none. These tokens are asked for once each, in layout order. The
instructions stand in the code in that order with nothing between them, and no other handle has an
offset. -/
theorem encode_succeeds_iff (intern : Interner σ) (s : σ)
    (hRoom : listing.extent listing.shortBranches listing.size < 0x80000000) :
    ((∃ e s', ofListing listing intern s = .ok e s') ↔
      (∀ i ∈ listing.slots, i.operand.IsOf i.opcode.operand) ∧ listing.Closed ∧
        ∃ tokens s', listing.newTexts.mapM intern s = .ok tokens s') ∧
    ∀ e s', ofListing listing intern s = .ok e s' →
      ofListing listing intern.recorded (s, []) = .ok e (s', listing.newTexts) ∧
      (∃ long interned, e.widened = long.count true ∧
        listing.interned intern s = .ok interned s' ∧ e.Tiles listing long interned) ∧
      ∀ h, listing.get? h = none → e.offsetOf (some h) = .error (.noOffset h) := by
  refine ⟨⟨?_, ?_⟩, fun e s' hEncode => ?_⟩
  · rintro ⟨e, s', hEncode⟩
    obtain ⟨hIs, hClosed⟩ := closed_of_ofListing hEncode
    obtain ⟨_, _, interned, _, hIntern, _⟩ := ofListing_eq_ok.1 hEncode
    obtain ⟨tokens, hTokens⟩ := Listing.exists_internAll_iff.1 ⟨interned, hIntern⟩
    exact ⟨hIs, hClosed, tokens, s', hTokens⟩
  · rintro ⟨hIs, hClosed, tokens, s', hTokens⟩
    obtain ⟨interned, hIntern⟩ := Listing.exists_internAll_iff.2 ⟨tokens, hTokens⟩
    obtain ⟨e, hEncode⟩ := exists_encoded hRoom hIs hClosed hIntern
    exact ⟨e, s', hEncode⟩
  · obtain ⟨l, long, interned, hSettle, hIntern, hTargets, hSequence, hWidened, hStarts⟩ :=
      ofListing_eq_ok.1 hEncode
    have hSlots := Layout.size_starts_of_ofListing (LongForms.settle_eq_ok hSettle).1
    have hRecorded : ofListing listing intern.recorded (s, []) = .ok e (s', listing.newTexts) :=
      ofListing_eq_ok.2 ⟨l, long, interned, hSettle, Listing.internAll_recorded hIntern [],
        hTargets, hSequence, hWidened, hStarts⟩
    have hTiles := tiles_of_sequence hIntern hStarts hSlots hSequence
    refine ⟨hRecorded, ⟨long, interned, hWidened, hIntern, hTiles⟩, fun h hForeign => ?_⟩
    have hOutside : e.starts[h]? = none := by
      rw [Listing.get?, Array.getElem?_eq_none_iff] at hForeign
      rwa [Array.getElem?_eq_none_iff, hStarts, hSlots]
    rw [offsetOf, hOutside]

/-- A short branch over a jump table that is too large for it, and a literal without token on
either side. -/
def wideTable : Listing where
  slots := #[.plain .ret, .loadText "a", ⟨.brS, .target 4⟩,
    ⟨.switch, .switch (List.replicate 40 0)⟩, .loadText "b"]
  order := [1, 2, 3, 4, 0]
  arranged := by decide

/-- The branch has to be made long, and the literals are asked for in layout order and not by
handle. -/
theorem encode_succeeds_iff_wideTable :
    wideTable.extent wideTable.shortBranches wideTable.size < 0x80000000 ∧
      ∃ e s', ofListing wideTable countLiterals.recorded (1, []) = .ok e (s', ["a", "b"]) := by
  have hRoom : wideTable.extent wideTable.shortBranches wideTable.size < 0x80000000 := by
    decide +kernel
  have hIs : ∀ i ∈ wideTable.slots, i.operand.IsOf i.opcode.operand := by
    simp only [wideTable, List.mem_toArray, List.forall_mem_cons]
    exact ⟨.none, .literal _, .shortBranch _, .switch _, .literal _, by simp⟩
  have hClosed : wideTable.Closed := by
    unfold Listing.Closed
    decide
  obtain ⟨hSucceeds, hEncoded⟩ := encode_succeeds_iff countLiterals 1 hRoom
  obtain ⟨e, s', hEncode⟩ := hSucceeds.2 ⟨hIs, hClosed, _, 3, rfl⟩
  exact ⟨hRoom, e, s', (hEncoded e s' hEncode).1⟩

end Encoded

end IlSplice
