import IlSplice.Proofs.Code.Layout

/-! The bytes of code that was put together. Every instruction is read back at the offset that the
layout has for it, and nothing stands between two instructions or behind the last one. -/

namespace IlSplice

namespace Instruction

/-- The instruction with a token for its literal. -/
def intern (intern : Interner σ) (i : Instruction) : Edit σ Instruction :=
  return ⟨i.opcode, ← i.operand.intern intern⟩

/-- The instruction as it is read from code with the given layout. -/
def raw (l : Layout) (long : LongForms) (h : Handle) (i : Instruction) : RawInstruction where
  offset := l.startOf h
  size := i.encodedSize (long.getD h false)
  opcode := i.form (long.getD h false)
  operand := i.operand.raw l.startOf

/-- Every instruction takes at least the byte of its opcode, and so no two start at the same offset.
-/
theorem encodedSize_pos (i : Instruction) (long : Bool) : 0 < i.encodedSize long := by
  have := (i.form long).size_pos
  unfold encodedSize
  omega

/-- A token for the literal takes no room of its own. -/
theorem encodedSize_of_isInterned {opcode : Opcode} {operand interned : Operand}
    (hInterned : operand.IsInterned interned) (long : Bool) :
    encodedSize ⟨opcode, interned⟩ long = encodedSize ⟨opcode, operand⟩ long := by
  unfold encodedSize form
  rw [hInterned.encodedSize_eq]

/-- An instruction ends at the same place with and without a token for its literal. -/
theorem stop_of_isInterned {i : Instruction} {operand : Operand}
    (hInterned : i.operand.IsInterned operand) (l : Layout) (long : LongForms) (h : Handle) :
    l.stop long h ⟨i.opcode, operand⟩ = l.stop long h i :=
  congrArg (l.startOf h + ·) (encodedSize_of_isInterned hInterned _)

end Instruction

namespace Listing

/-- Instructions with tokens for their literals, which are asked for in order. -/
def internAll (intern : Interner σ) :
    List (Handle × Instruction) → Edit σ (List (Handle × Instruction))
  | [] => return []
  | (h, i) :: rest => do
    let interned ← i.intern intern
    return (h, interned) :: (← internAll intern rest)

/-- The instructions of a listing in layout order, with tokens for their literals. -/
def interned (l : Listing) (intern : Interner σ) : Edit σ (List (Handle × Instruction)) :=
  internAll intern l.entries

variable {σ : Type} {intern : Interner σ} {entries interned : List (Handle × Instruction)}
  {s s' : σ}

/-- Tokens are asked for from the front, and those of later instructions with what the earlier ones
left. -/
theorem internAll_cons_eq_ok {h : Handle} {i : Instruction} :
    internAll intern ((h, i) :: entries) s = .ok interned s' ↔
      ∃ operand middle tail, i.operand.intern intern s = .ok operand middle ∧
        internAll intern entries middle = .ok tail s' ∧
        interned = (h, ⟨i.opcode, operand⟩) :: tail := by
  constructor
  · intro hIntern
    obtain ⟨i', middle, hFirst, hIntern⟩ := Edit.bind_eq_ok.1 hIntern
    obtain ⟨operand, _, hOperand, hPure⟩ := Edit.bind_eq_ok.1 hFirst
    obtain ⟨rfl, rfl⟩ := Edit.pure_eq_ok.1 hPure
    obtain ⟨tail, _, hTail, hPure⟩ := Edit.bind_eq_ok.1 hIntern
    obtain ⟨rfl, rfl⟩ := Edit.pure_eq_ok.1 hPure
    exact ⟨operand, _, tail, hOperand, hTail, rfl⟩
  · rintro ⟨operand, middle, tail, hOperand, hTail, rfl⟩
    exact Edit.bind_eq_ok.2 ⟨_, middle, Edit.bind_eq_ok.2 ⟨operand, middle, hOperand, rfl⟩,
      Edit.bind_eq_ok.2 ⟨tail, s', hTail, rfl⟩⟩

/-- Nothing but literals changes when tokens are asked for. Handles and opcodes stay. -/
theorem forall₂_of_internAll (hIntern : internAll intern entries s = .ok interned s') :
    List.Forall₂ (fun entry entry' => entry'.1 = entry.1 ∧ entry'.2.opcode = entry.2.opcode ∧
      entry.2.operand.IsInterned entry'.2.operand) entries interned := by
  induction entries generalizing s interned with
  | nil =>
      obtain ⟨rfl, rfl⟩ := Edit.pure_eq_ok.1 hIntern
      exact .nil
  | cons entry rest ih =>
      obtain ⟨operand, middle, tail, hOperand, hTail, rfl⟩ := internAll_cons_eq_ok.1 hIntern
      exact .cons ⟨rfl, rfl, Operand.isInterned_of_intern hOperand⟩ (ih hTail)

theorem map_fst_of_internAll (hIntern : internAll intern entries s = .ok interned s') :
    interned.map Prod.fst = entries.map Prod.fst := by
  rw [← List.forall₂_eq_eq_eq, List.forall₂_map_left_iff, List.forall₂_map_right_iff]
  exact (forall₂_of_internAll hIntern).flip.imp fun _ _ hSame => hSame.1

variable {l : Listing}

theorem interned_getElem? (hIntern : l.interned intern s = .ok interned s') {k : Nat}
    {h : Handle} {i : Instruction} (hEntry : l.entries[k]? = some (h, i)) :
    ∃ operand, i.operand.IsInterned operand ∧ interned[k]? = some (h, ⟨i.opcode, operand⟩) := by
  obtain ⟨⟨h', opcode, operand⟩, hInterned, rfl, hOpcode, hOperand⟩ :=
    forall₂_getElem? (forall₂_of_internAll hIntern) hEntry
  exact ⟨operand, hOperand, hOpcode ▸ hInterned⟩

theorem interned_of_handleAt? (hIntern : l.interned intern s = .ok interned s') {k : Nat}
    {h : Handle} (hHandle : l.handleAt? k = some h) : ∃ i operand, l.get? h = some i ∧
      i.operand.IsInterned operand ∧ interned[k]? = some (h, ⟨i.opcode, operand⟩) := by
  have hGet := get?_of_lt (l.mem_order.1 (List.mem_of_getElem? hHandle))
  obtain ⟨operand, hOperand, hInterned⟩ :=
    interned_getElem? hIntern (entries_getElem?_eq_some.2 ⟨hHandle, hGet⟩)
  exact ⟨_, operand, hGet, hOperand, hInterned⟩

/-- No instruction gets lost when tokens are asked for. -/
theorem mem_interned_of_get? (hIntern : l.interned intern s = .ok interned s') {h : Handle}
    {i : Instruction} (hGet : l.get? h = some i) :
    ∃ operand, i.operand.IsInterned operand ∧ (h, ⟨i.opcode, operand⟩) ∈ interned := by
  obtain ⟨operand, hOperand, hInterned⟩ := interned_getElem? hIntern (entries_idxOf hGet)
  exact ⟨operand, hOperand, List.mem_of_getElem? hInterned⟩

/-- No instruction is added when tokens are asked for. -/
theorem get?_of_mem_interned (hIntern : l.interned intern s = .ok interned s')
    {h : Handle} {i' : Instruction} (hMem : (h, i') ∈ interned) : ∃ i operand, l.get? h = some i ∧
      i.operand.IsInterned operand ∧ i' = ⟨i.opcode, operand⟩ := by
  obtain ⟨⟨h, i⟩, hEntry, rfl, hOpcode, hOperand⟩ :=
    forall₂_mem_right (forall₂_of_internAll hIntern) hMem
  exact ⟨i, i'.operand, mem_entries.1 hEntry, hOperand, by rw [← hOpcode]⟩

/-- No token is asked for where every literal has one. -/
theorem internAll_of_has_token (intern : Interner σ)
    (hToken : ∀ entry ∈ entries, ∀ text, entry.2.operand ≠ .literal ⟨none, text⟩) (s : σ) :
    internAll intern entries s = .ok entries s := by
  induction entries with
  | nil => rfl
  | cons entry rest ih =>
      rw [List.forall_mem_cons] at hToken
      refine internAll_cons_eq_ok.2 ⟨entry.2.operand, s, rest, ?_, ih hToken.2, rfl⟩
      rw [Operand.intern]
      · rfl
      · exact fun text => hToken.1 text

end Listing

namespace Layout

variable {l : Layout} {long : LongForms} {entries : List (Handle × Instruction)} {start : Nat}

/-- A layout that was worked out before the tokens were asked for still holds afterwards. -/
theorem Places.of_internAll {σ : Type} {intern : Interner σ} {s s' : σ}
    {interned : List (Handle × Instruction)} (hPlaces : l.Places long start entries)
    (hIntern : Listing.internAll intern entries s = .ok interned s') :
    l.Places long start interned := by
  have hEach := Listing.forall₂_of_internAll hIntern
  clear hIntern
  induction hEach generalizing start with
  | nil => exact hPlaces
  | @cons entry entry' rest rest' hSame _ ih =>
      obtain ⟨h, opcode, operand⟩ := entry
      obtain ⟨h', opcode', operand'⟩ := entry'
      obtain ⟨rfl, rfl, hOperand⟩ : h' = h ∧ opcode' = opcode ∧ operand.IsInterned operand' := hSame
      obtain ⟨hStart, hRest⟩ := hPlaces
      exact ⟨hStart, Instruction.encodedSize_of_isInterned hOperand _ ▸ ih hRest⟩

theorem Places.start_le (hPlaces : l.Places long start entries) : start ≤ l.size := by
  induction entries generalizing start with
  | nil => exact Nat.le_of_eq hPlaces.symm
  | cons entry rest ih =>
      have := ih hPlaces.2
      omega

/-- An instruction starts in front of the end of the code, since it takes room itself. -/
theorem Places.start_le_startOf (hPlaces : l.Places long start entries)
    {entry : Handle × Instruction} (hMem : entry ∈ entries) :
    start ≤ l.startOf entry.1 ∧ l.startOf entry.1 < l.size := by
  induction entries generalizing start with
  | nil => cases hMem
  | cons first rest ih =>
      have hPos := first.2.encodedSize_pos (long.getD first.1 false)
      rcases List.mem_cons.1 hMem with rfl | hMem
      · have := Places.start_le hPlaces.2
        have := hPlaces.1
        omega
      · have := ih hPlaces.2 hMem
        omega

/-- No two instructions start at the same offset. -/
theorem Places.pairwise_startOf (hPlaces : l.Places long start entries) :
    entries.Pairwise fun entry later => l.startOf entry.1 < l.startOf later.1 := by
  induction entries generalizing start with
  | nil => exact .nil
  | cons first rest ih =>
      refine .cons (fun later hLater => ?_) (ih hPlaces.2)
      have hPos := first.2.encodedSize_pos (long.getD first.1 false)
      have := hPlaces.1
      have := (Places.start_le_startOf hPlaces.2 hLater).1
      omega

end Layout

namespace Encoded

/-- The bytes of instructions that stand one behind the other, each of which is read back. -/
inductive Written (l : Layout) (long : LongForms) :
    List (Handle × Instruction) → List UInt8 → Prop where
  | nil : Written l long [] []
  | cons {h : Handle} {i : Instruction} {bs tail : List UInt8} {rest : List (Handle × Instruction)}
      (targets : ∀ target ∈ i.operand.targets, target < l.starts.size)
      (length : bs.length = i.operand.encodedSize (i.form (long.getD h false)))
      (readBack : i.operand.ReadBack (i.form (long.getD h false)) l (l.stop long h i) bs)
      (later : Written l long rest tail) :
      Written l long ((h, i) :: rest) ((i.form (long.getD h false)).encode ++ (bs ++ tail))

variable {σ : Type} {intern : Interner σ} {l : Layout} {long : LongForms}
  {entries interned : List (Handle × Instruction)} {s s' : σ} {code code' : Bytes}

/-- Putting instructions behind the code asks for the tokens of their literals in order. -/
theorem written_of_emit (hEmit : emit l long intern entries code s = .ok code' s') :
    ∃ interned bs, Listing.internAll intern entries s = .ok interned s' ∧
      code' = code ++ bs.toArray ∧ Written l long interned bs := by
  induction entries generalizing code s with
  | nil =>
      obtain ⟨rfl, rfl⟩ := Edit.pure_eq_ok.1 hEmit
      exact ⟨[], [], rfl, by simp, .nil⟩
  | cons entry rest ih =>
      obtain ⟨h, i⟩ := entry
      obtain ⟨bs, middle, hOperand, hRest⟩ := Edit.bind_eq_ok.1 hEmit
      obtain ⟨operand, hIntern, hEncodes⟩ := Operand.encodes_of_encode hOperand
      obtain ⟨tail, tailBytes, hTail, rfl, hWritten⟩ := ih hRest
      have hIsInterned := Operand.isInterned_of_intern hIntern
      have hStop := Instruction.stop_of_isInterned hIsInterned l long h
      exact ⟨(h, ⟨i.opcode, operand⟩) :: tail,
        (i.form (long.getD h false)).encode ++ (bs ++ tailBytes),
        Listing.internAll_cons_eq_ok.2 ⟨operand, middle, tail, hIntern, hTail, rfl⟩, by simp,
        .cons (hIsInterned.targets_eq ▸ hEncodes.targets)
          (hIsInterned.encodedSize_eq _ ▸ hEncodes.length) (hStop ▸ hEncodes.readBack) hWritten⟩

theorem Written.targets_lt {bs : List UInt8} (hWritten : Written l long interned bs)
    {entry : Handle × Instruction} (hMem : entry ∈ interned) {target : Handle}
    (hTarget : target ∈ entry.2.operand.targets) : target < l.starts.size := by
  induction hWritten with
  | nil => cases hMem
  | cons targets _ _ _ ih =>
      rcases List.mem_cons.1 hMem with rfl | hMem
      · exact targets target hTarget
      · exact ih hMem

/-- The layout reckons with as many bytes as there are. -/
theorem Written.length_eq {bs : List UInt8} {start : Nat} (hWritten : Written l long interned bs)
    (hPlaces : l.Places long start interned) : l.size = start + bs.length := by
  induction hWritten generalizing start with
  | nil => exact hPlaces
  | cons _ length _ _ ih =>
      rw [ih hPlaces.2, Instruction.encodedSize, List.length_append, List.length_append,
        Opcode.length_encode, length]
      omega

end Encoded

namespace RawInstruction

variable {code : Bytes} {position next : Nat} {found : Array RawInstruction}

/-- Reading goes on behind an instruction that was read. With this the reader need not be unfolded.
-/
theorem scanAll_of_scan {raw : RawInstruction} (hInside : position < code.size)
    (hScan : scan code position = .ok raw next) :
    scanAll code position found = scanAll code next (found.push raw) := by
  rw [scanAll, if_pos hInside]
  split
  · rename_i hScan'
    rw [hScan] at hScan'
    cases hScan'
    rfl
  · rename_i hScan'
    rw [hScan] at hScan'
    cases hScan'

theorem scanAll_of_size (hEnd : code.size ≤ position) :
    scanAll code position found = (found, none) := by
  rw [scanAll, if_neg (by omega)]

/-- One instruction is read back where its bytes stand. -/
theorem scan_of_holds {l : Layout} {long : LongForms} {h : Handle} {i : Instruction}
    {bs : List UInt8}
    (hHolds : code.Holds (l.startOf h) ((i.form (long.getD h false)).encode ++ bs))
    (hLength : bs.length = i.operand.encodedSize (i.form (long.getD h false)))
    (hRead : i.operand.ReadBack (i.form (long.getD h false)) l (l.stop long h i) bs) :
    scan code (l.startOf h) = .ok (i.raw l long h) (l.stop long h i) := by
  obtain ⟨hOpcode, hOperand⟩ := Bytes.holds_append.1 hHolds
  rw [Opcode.length_encode] at hOperand
  have hStop : l.startOf h + (i.form (long.getD h false)).size + bs.length = l.stop long h i := by
    rw [Layout.stop, Instruction.encodedSize, hLength, ← Layout.startOf]
    omega
  rw [scan, Scan.bind_of_ok (show Scan.position code _ = .ok _ _ from rfl),
    Scan.bind_of_ok (Opcode.scanValue_of_holds hOpcode), Opcode.ofValue?_value]
  change (RawOperand.scan _ >>= _) code _ = _
  rw [Scan.bind_of_ok (hRead code _ hOperand hStop)]
  change EStateM.Result.ok _ _ = _
  rw [Instruction.raw, Layout.stop, ← Layout.startOf, Nat.add_sub_cancel_left]

/-- Reading goes through all instructions that were written, and ends where they end. -/
theorem scanAll_of_written {l : Layout} {long : LongForms} {interned : List (Handle × Instruction)}
    {bs : List UInt8} (hWritten : Encoded.Written l long interned bs)
    (hPlaces : l.Places long position interned) (hHolds : code.Holds position bs)
    (hSize : code.size = position + bs.length) :
    scanAll code position found
      = (found ++ (interned.map fun entry => entry.2.raw l long entry.1).toArray, none) := by
  induction hWritten generalizing position found with
  | nil =>
      rw [scanAll_of_size (by simp [hSize])]
      simp
  | @cons h i bs tail rest targets length readBack _ ih =>
      obtain ⟨rfl, hRest⟩ := hPlaces
      have hStop : l.startOf h + i.encodedSize (long.getD h false) = l.stop long h i := rfl
      have hLength : ((i.form (long.getD h false)).encode ++ bs).length
          = i.encodedSize (long.getD h false) := by
        rw [List.length_append, Opcode.length_encode, length, Instruction.encodedSize]
      rw [← List.append_assoc] at hHolds hSize
      obtain ⟨hFirst, hTail⟩ := Bytes.holds_append.1 hHolds
      rw [hLength, hStop] at hTail
      rw [List.length_append, hLength, ← Nat.add_assoc, hStop] at hSize
      rw [hStop] at hRest
      have hPos := i.encodedSize_pos (long.getD h false)
      rw [scanAll_of_scan (by omega) (scan_of_holds hFirst length readBack), ih hRest hTail hSize]
      simp

end RawInstruction

end IlSplice
