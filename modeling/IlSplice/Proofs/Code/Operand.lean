import IlSplice.Code.Encoded
import IlSplice.Proofs.Code.Spelling

/-! Operands in code. An operand is written as it is spelt, its literal with a token and its branch
targets as offsets. What is written therefore has the size that the layout reckons with, and is read
back as the operand. -/

namespace IlSplice

namespace Operand

/-- The operand with other branch targets. -/
def mapTargets (f : Handle → Handle) : Operand → Operand
  | .target h => .target (f h)
  | .switch hs => .switch (hs.map f)
  | operand => operand

/-- The operand with a token for its literal, which is asked for only where there is none. -/
def intern (intern : Interner σ) : Operand → Edit σ Operand
  | .literal ⟨Option.none, text⟩ => return .literal ⟨some (← intern text), text⟩
  | operand => return operand

/-- The operand as it is read from code in which each instruction has the given offset. -/
def raw (start : Handle → Nat) : Operand → RawOperand
  | .target h => .target (start h)
  | .switch hs => .switch (hs.map fun h => (start h : Int))
  | .method callee => .method callee.token
  | .literal l => .literal (l.token.getD .null)
  | operand => .plain operand

/-- The operand itself, or a literal without token after it was given one. -/
def IsInterned (operand interned : Operand) : Prop :=
  (interned = operand ∧ ∀ text, operand ≠ .literal ⟨Option.none, text⟩) ∨
    ∃ t text, operand = .literal ⟨Option.none, text⟩ ∧ interned = .literal ⟨some t, text⟩

/-- The operand is one that opcodes of the kind take. -/
inductive IsOf : Operand → OperandKind → Prop where
  | none : IsOf .none .none
  | int8 (value : Int8) : IsOf (.int8 value) .int8
  | uint8 (value : UInt8) : IsOf (.uint8 value) .uint8
  | uint16 (value : UInt16) : IsOf (.uint16 value) .uint16
  | int32 (value : Int32) : IsOf (.int32 value) .int32
  | int64 (value : Int64) : IsOf (.int64 value) .int64
  | float32 (bits : UInt32) : IsOf (.float32 bits) .float32
  | float64 (bits : UInt64) : IsOf (.float64 bits) .float64
  | shortBranch (goal : Handle) : IsOf (.target goal) .shortBranch
  | branch (goal : Handle) : IsOf (.target goal) .branch
  | switch (goals : List Handle) : IsOf (.switch goals) .switch
  | method (callee : MethodRef) : IsOf (.method callee) .method
  | literal (text : Literal) : IsOf (.literal text) .literal
  | token (value : Token) : IsOf (.token value) .token

variable {σ : Type} {intern : Interner σ} {operand interned : Operand} {s s' : σ}

/-- Asking for a token changes nothing else about an operand. -/
theorem isInterned_of_intern (hIntern : operand.intern intern s = .ok interned s') :
    operand.IsInterned interned := by
  unfold Operand.intern at hIntern
  split at hIntern
  · rename_i text
    obtain ⟨t, middle, _, hPure⟩ := Edit.bind_eq_ok.1 hIntern
    obtain ⟨rfl, rfl⟩ := Edit.pure_eq_ok.1 hPure
    exact .inr ⟨t, text, rfl, rfl⟩
  · rename_i hToken
    obtain ⟨rfl, rfl⟩ := Edit.pure_eq_ok.1 hIntern
    exact .inl ⟨rfl, hToken⟩

/-- Afterwards every literal has a token, and so it is not asked for again. -/
theorem IsInterned.has_token (h : operand.IsInterned interned) (text : String) :
    interned ≠ .literal ⟨Option.none, text⟩ := by
  rcases h with ⟨rfl, hToken⟩ | ⟨t, text, rfl, rfl⟩
  · exact hToken text
  · simp

theorem IsInterned.targets_eq (h : operand.IsInterned interned) :
    interned.targets = operand.targets := by
  rcases h with ⟨rfl, _⟩ | ⟨t, text, rfl, rfl⟩ <;> rfl

/-- A literal takes the four bytes of its token, which are reckoned with before it has one. -/
theorem IsInterned.encodedSize_eq (h : operand.IsInterned interned) (opcode : Opcode) :
    interned.encodedSize opcode = operand.encodedSize opcode := by
  rcases h with ⟨rfl, _⟩ | ⟨t, text, rfl, rfl⟩
  · rfl
  · unfold encodedSize
    cases opcode.operand <;> rfl

theorem IsInterned.isOf_iff (h : operand.IsInterned interned) {kind : OperandKind} :
    interned.IsOf kind ↔ operand.IsOf kind := by
  rcases h with ⟨rfl, _⟩ | ⟨t, text, rfl, rfl⟩
  · rfl
  · constructor <;> rintro ⟨⟩ <;> exact .literal _

/-- Only an operand of the kind has a spelling. -/
theorem isOf_of_spelt {kind : OperandKind} {start : Handle → Nat} {stop : Nat} {bs : List UInt8}
    (hSpelt : RawOperand.Spelt stop bs (operand.raw start) kind) : operand.IsOf kind := by
  cases kind <;> cases operand <;> simp_all only [RawOperand.Spelt, raw, RawOperand.plain.injEq,
    reduceCtorEq, and_false, exists_false] <;> constructor

end Operand

namespace Layout

/-- The offset of an instruction. -/
def startOf (l : Layout) (h : Handle) : Nat := l.starts.getD h 0

/-- The way to a target counts from the end of the branch. It fails for handles that are not in the
layout. -/
theorem displacement_eq_ok {l : Layout} {goal : Handle} {next : Nat} {n : Int} :
    l.displacement goal next = .ok n ↔
      goal < l.starts.size ∧ n = (l.startOf goal : Int) - next := by
  unfold displacement startOf
  rw [Array.getD_eq_getD_getElem?]
  by_cases hGoal : goal < l.starts.size
  · simp [hGoal, eq_comm]
  · simp [hGoal]

end Layout

/-- A way fits a byte exactly if it is the value of one. -/
theorem fitsByte_iff_exists {n : Int} : fitsByte n = true ↔ ∃ value : Int8, value.toInt = n := by
  rw [fitsByte, Bool.and_eq_true, decide_eq_true_eq, decide_eq_true_eq]
  constructor
  · rintro ⟨hLow, hHigh⟩
    exact ⟨.ofInt n, Int8.toInt_ofInt_of_le (by omega) (by omega)⟩
  · rintro ⟨value, rfl⟩
    have := value.le_toInt
    have := value.toInt_lt
    omega

theorem fitsWord_iff_exists {n : Int} : fitsWord n = true ↔ ∃ value : Int32, value.toInt = n := by
  rw [fitsWord, Bool.and_eq_true, decide_eq_true_eq, decide_eq_true_eq]
  constructor
  · rintro ⟨hLow, hHigh⟩
    exact ⟨.ofInt n, Int32.toInt_ofInt_of_le (by omega) (by omega)⟩
  · rintro ⟨value, rfl⟩
    have := value.le_toInt
    have := value.toInt_lt
    omega

section

variable {l : Layout} {goal : Handle} {next : Nat} {fault : Fault}

/-- A displacement is written if the target is in the layout and the way to it has a place in the
field. -/
theorem encodeDisplacement_bind_eq_ok {α : Type} {width : Nat} {fits : Int → Bool} {toInt : α → Int}
    {bs : List UInt8} (hFits : ∀ n, fits n = true ↔ ∃ value, toInt value = n) :
    (do encodeDisplacement width fits fault (← l.displacement goal next)) = .ok bs ↔
      goal < l.starts.size ∧ ∃ value, bs = leSigned width (toInt value) ∧
        (l.startOf goal : Int) = next + toInt value := by
  simp only [Except.bind_eq_ok, Layout.displacement_eq_ok]
  constructor
  · rintro ⟨n, ⟨hGoal, rfl⟩, hBytes⟩
    unfold encodeDisplacement at hBytes
    split at hBytes
    · obtain ⟨value, hValue⟩ := (hFits _).1 ‹_›
      cases hBytes
      exact ⟨hGoal, value, by rw [hValue], by omega⟩
    · cases hBytes
  · rintro ⟨hGoal, value, rfl, hWay⟩
    have hValue : toInt value = l.startOf goal - next := by omega
    refine ⟨_, ⟨hGoal, rfl⟩, ?_⟩
    rw [encodeDisplacement, if_pos ((hFits _).2 ⟨value, hValue⟩), hValue]

/-- A jump table is written if all of its targets have a place, whose displacements it lists. -/
theorem mapM_encodeDisplacement_eq_ok {goals : List Handle} {chunks : List (List UInt8)} :
    (goals.mapM fun goal => do
      encodeDisplacement 4 fitsWord fault (← l.displacement goal next)) = .ok chunks ↔
      (∀ goal ∈ goals, goal < l.starts.size) ∧ ∃ values : List Int32,
        chunks = values.map (leSigned 4 ·.toInt) ∧
        goals.map (fun goal => (l.startOf goal : Int))
          = values.map fun value : Int32 => (next : Int) + value.toInt := by
  rw [Except.mapM_eq_ok]
  simp only [encodeDisplacement_bind_eq_ok @fitsWord_iff_exists]
  constructor
  · intro hEach
    induction hEach with
    | nil => exact ⟨by simp, [], rfl, rfl⟩
    | cons hFirst _ ih =>
        obtain ⟨hGoal, value, rfl, hWay⟩ := hFirst
        obtain ⟨hGoals, values, rfl, hWays⟩ := ih
        exact ⟨List.forall_mem_cons.2 ⟨hGoal, hGoals⟩, value :: values, rfl, by simp [hWay, hWays]⟩
  · rintro ⟨hGoals, values, rfl, hWays⟩
    rw [← List.forall₂_eq_eq_eq, List.forall₂_map_left_iff, List.forall₂_map_right_iff] at hWays
    rw [List.forall₂_map_right_iff]
    exact ((List.forall₂_and_left _ _).2 ⟨hGoals, hWays⟩).imp
      fun _ value hEach => ⟨hEach.1, value, rfl, hEach.2⟩

end

namespace Operand

variable {σ : Type} {intern : Interner σ} {l : Layout} {h : Handle} {next : Nat} {s s' : σ}
  {opcode : Opcode} {operand interned : Operand} {bs : List UInt8}

/-- The bytes are those of the operand, and its targets are all in the layout. -/
def SpeltIn (operand : Operand) (l : Layout) (kind : OperandKind) (next : Nat)
    (bs : List UInt8) : Prop :=
  (∀ target ∈ operand.targets, target < l.starts.size) ∧
    RawOperand.Spelt next bs (operand.raw l.startOf) kind

/-- An operand of another kind than its opcode takes is never written. -/
theorem isOf_of_encode (hEncode : operand.encode opcode l h next intern s = .ok bs s') :
    operand.IsOf opcode.operand := by
  fun_cases Operand.encode operand opcode l h next intern with
  | case17 =>
      rw [Operand.encode] at hEncode
      · cases hEncode
      all_goals assumption
  | _ =>
      simp only [*]
      constructor

/-- Operands other than literals leave the interner alone. -/
theorem exists_intern_of_pure {P : Operand → Prop}
    (hIntern : operand.intern intern = pure operand) :
    (∃ interned, operand.intern intern s = .ok interned s' ∧ P interned) ↔
      s = s' ∧ P operand := by
  simp [hIntern, Edit.pure_eq_ok]

/-- An operand is written exactly as it is spelt, after its literal was given a token. -/
theorem encode_eq_ok : operand.encode opcode l h next intern s = .ok bs s' ↔
    ∃ interned, operand.intern intern s = .ok interned s' ∧
      interned.SpeltIn l opcode.operand next bs := by
  by_cases hIs : operand.IsOf opcode.operand
  swap
  · refine iff_of_false (fun hEncode => hIs (isOf_of_encode hEncode)) ?_
    rintro ⟨interned, hIntern, _, hSpelt⟩
    exact hIs ((isInterned_of_intern hIntern).isOf_iff.1 (isOf_of_spelt hSpelt))
  generalize hKind : opcode.operand = kind at hIs
  cases hIs with
  | none | int8 | uint8 | uint16 | int32 | int64 | float32 | float64 | method | token =>
      rw [exists_intern_of_pure rfl]
      simp only [encode, hKind, Edit.pure_eq_ok]
      simp [SpeltIn, targets, raw, RawOperand.Spelt, and_comm, eq_comm]
  | shortBranch goal =>
      rw [exists_intern_of_pure rfl]
      simp only [encode, hKind, Edit.check_eq_ok,
        encodeDisplacement_bind_eq_ok @fitsByte_iff_exists]
      simp [SpeltIn, targets, raw, RawOperand.Spelt, and_comm]
  | branch goal =>
      rw [exists_intern_of_pure rfl]
      simp only [encode, hKind, Edit.check_eq_ok,
        encodeDisplacement_bind_eq_ok @fitsWord_iff_exists]
      simp [SpeltIn, targets, raw, RawOperand.Spelt, and_comm]
  | switch goals =>
      rw [exists_intern_of_pure rfl]
      simp only [encode, hKind]
      constructor
      · intro hEncode
        split at hEncode
        · rename_i hCount
          obtain ⟨hBytes, rfl⟩ := Edit.check_eq_ok.1 hEncode
          obtain ⟨chunks, hChunks, hBytes⟩ := Except.bind_eq_ok.1 hBytes
          obtain ⟨hGoals, values, rfl, hWays⟩ := mapM_encodeDisplacement_eq_ok.1 hChunks
          cases hBytes
          have hLength : goals.length = values.length := by
            simpa using congrArg List.length hWays
          exact ⟨rfl, hGoals, values, hLength ▸ hCount, by rw [hLength], congrArg _ hWays⟩
        · cases hEncode
      · rintro ⟨rfl, hGoals, values, hCount, rfl, hRaw⟩
        have hWays := RawOperand.switch.inj hRaw
        have hLength : goals.length = values.length := by simpa using congrArg List.length hWays
        rw [if_pos (hLength ▸ hCount), hLength]
        refine Edit.check_eq_ok.2 ⟨Except.bind_eq_ok.2 ⟨_, ?_, rfl⟩, rfl⟩
        exact mapM_encodeDisplacement_eq_ok.2 ⟨hGoals, values, rfl, hWays⟩
  | literal text =>
      obtain ⟨_ | t, text⟩ := text
      · simp only [encode, hKind]
        constructor
        · intro hEncode
          obtain ⟨t, middle, hToken, hPure⟩ := Edit.bind_eq_ok.1 hEncode
          obtain ⟨rfl, rfl⟩ := Edit.pure_eq_ok.1 hPure
          exact ⟨.literal ⟨some t, text⟩, Edit.bind_eq_ok.2 ⟨t, _, hToken, rfl⟩, by simp [targets],
            t, rfl, rfl⟩
        · rintro ⟨interned, hIntern, _, t, rfl, hRaw⟩
          obtain ⟨t', middle, hToken, hPure⟩ := Edit.bind_eq_ok.1 hIntern
          obtain ⟨rfl, rfl⟩ := Edit.pure_eq_ok.1 hPure
          cases hRaw
          exact Edit.bind_eq_ok.2 ⟨t', _, hToken, rfl⟩
      · rw [exists_intern_of_pure rfl]
        simp only [encode, hKind, Edit.pure_eq_ok]
        simp [SpeltIn, targets, raw, RawOperand.Spelt, and_comm, eq_comm]

theorem encodedSize_of_kind {kind : OperandKind} {width : Nat} (hKind : opcode.operand = kind)
    (hSize : kind.size? = some width) (hSwitch : kind ≠ .switch) :
    operand.encodedSize opcode = width := by
  unfold encodedSize
  split
  · exact (hSwitch (hKind.symm.trans ‹_›)).elim
  · rw [hKind, hSize, Option.getD_some]

/-- A spelling has the size that the layout reckons with. -/
theorem length_of_spelt {start : Handle → Nat}
    (hSpelt : RawOperand.Spelt next bs (operand.raw start) opcode.operand) :
    bs.length = operand.encodedSize opcode := by
  have hIs := isOf_of_spelt hSpelt
  generalize hKind : opcode.operand = kind at hIs hSpelt
  cases hIs with
  | none =>
      rw [encodedSize_of_kind hKind rfl (by decide), hSpelt.1]
      rfl
  | switch goals =>
      obtain ⟨values, _, rfl, hRaw⟩ := hSpelt
      have hLength : goals.length = values.length := by
        simpa using congrArg List.length (RawOperand.switch.inj hRaw)
      simp [encodedSize, hKind, List.length_flatten, Function.comp_def, hLength, Nat.mul_comm]
  | _ =>
      obtain ⟨value, rfl, _⟩ := hSpelt
      rw [encodedSize_of_kind hKind rfl (by decide)]
      simp

/-- The bytes of an operand are read back, in front of `next` and with branch targets at the
offsets of the layout. -/
def ReadBack (interned : Operand) (opcode : Opcode) (l : Layout) (next : Nat)
    (bs : List UInt8) : Prop :=
  ∀ (code : Bytes) (position : Nat), code.Holds position bs → position + bs.length = next →
    RawOperand.scan opcode.operand code position = .ok (interned.raw l.startOf) next

/-- What is known of the bytes that were written for an operand. -/
structure Encodes (operand interned : Operand) (opcode : Opcode) (l : Layout) (next : Nat)
    (bs : List UInt8) : Prop where
  targets : ∀ target ∈ operand.targets, target < l.starts.size
  length : bs.length = operand.encodedSize opcode
  readBack : interned.ReadBack opcode l next bs

/-- Writing an operand asks for a token where its literal has none. -/
theorem encodes_of_encode (hEncode : operand.encode opcode l h next intern s = .ok bs s') :
    ∃ interned, operand.intern intern s = .ok interned s' ∧
      operand.Encodes interned opcode l next bs := by
  obtain ⟨interned, hIntern, hTargets, hSpelt⟩ := encode_eq_ok.1 hEncode
  have hInterned := isInterned_of_intern hIntern
  refine ⟨interned, hIntern, hInterned.targets_eq ▸ hTargets, ?_,
    fun code position hHolds hNext => ?_⟩
  · rw [← hInterned.encodedSize_eq, length_of_spelt hSpelt]
  · exact (RawOperand.reads _ code position _ _ hHolds.offset_le).2 ⟨bs, hHolds, hNext.symm, hSpelt⟩

end Operand

end IlSplice
