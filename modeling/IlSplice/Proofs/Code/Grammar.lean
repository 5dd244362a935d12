import IlSplice.Proofs.Body.Closed
import IlSplice.Proofs.Code.RoundTrip
import IlSplice.Proofs.Code.Spelling

/-! The grammar of code. Code is accepted exactly if it is a sequence of opcodes, each with a
complete operand behind it, in which all branches lead to the start of an instruction and all tokens
are known. Which instructions they are is then decided by the bytes. -/

namespace IlSplice

namespace RawInstruction

variable {code : Bytes} {position : Nat} {bs : List UInt8} {raws : List RawInstruction}

/-- The bytes are the encodings of the instructions, one directly behind the other. -/
inductive Sequence : Nat → List UInt8 → List RawInstruction → Prop where
  | nil (start : Nat) : Sequence start [] []
  | cons {start : Nat} {bs rest : List UInt8} {raw : RawInstruction}
      {raws : List RawInstruction} (first : Spelt start bs raw)
      (later : Sequence (start + bs.length) rest raws) :
      Sequence start (bs ++ rest) (raw :: raws)

/-- Reading gets to the end of the code exactly if the code is a sequence of instructions. -/
theorem scanAll_eq_ok {found all : Array RawInstruction} (hHolds : code.Holds position bs)
    (hEnd : code.size = position + bs.length) : scanAll code position found = (all, none) ↔
      ∃ raws, all = found ++ raws.toArray ∧ Sequence position bs raws := by
  constructor
  · intro hScan
    fun_induction scanAll code position found generalizing bs with
    | case1 position found _ raw next hRaw _ ih =>
        obtain ⟨chunk, hChunk, rfl, hSpelt⟩ := scan_eq_ok_iff.1 hRaw
        have hLength : chunk.length ≤ bs.length := by
          have := hChunk.1
          omega
        have hRest := hHolds.drop hLength
        rw [hHolds.eq_append hChunk hLength]
        obtain ⟨raws, rfl, hSequence⟩ := ih hRest (by rw [List.length_drop]; omega) hScan
        exact ⟨raw :: raws, by simp, .cons hSpelt hSequence⟩
    | case2 => cases hScan
    | case3 position found hStop =>
        cases hScan
        obtain rfl : bs = [] := List.length_eq_zero_iff.1 (by omega)
        exact ⟨[], by simp, .nil _⟩
  · rintro ⟨raws, rfl, hSequence⟩
    induction hSequence generalizing found with
    | nil =>
        rw [scanAll_of_size (by simp [hEnd])]
        simp
    | @cons start chunk rest raw raws hFirst hLater ih =>
        obtain ⟨hChunk, hRest⟩ := Bytes.holds_append.1 hHolds
        have hScan := scan_eq_ok_iff.2 ⟨chunk, hChunk, rfl, hFirst⟩
        have hMoves := lt_of_scan hScan
        rw [List.length_append, ← Nat.add_assoc] at hEnd
        rw [scanAll_of_scan (by omega) hScan, ih hRest hEnd]
        simp

/-- The starts of a sequence count up, and lie in it. -/
theorem Sequence.offsets {start : Nat} (h : Sequence start bs raws) :
    (raws.Pairwise fun raw later => raw.offset < later.offset) ∧
      ∀ raw ∈ raws, start ≤ raw.offset ∧ raw.offset < start + bs.length := by
  induction h with
  | nil => exact ⟨.nil, fun _ hMem => nomatch hMem⟩
  | @cons start bs rest raw raws hFirst _ ih =>
      obtain ⟨hOffset, _, operand, hBytes, _⟩ := hFirst
      have hPos := raw.opcode.size_pos
      have hLength : bs.length = raw.opcode.size + operand.length := by
        rw [hBytes, List.length_append, Opcode.length_encode]
      rw [List.pairwise_cons, List.length_append]
      refine ⟨⟨fun later hMem => ?_, ih.1⟩, fun other hMem => ?_⟩
      · have := (ih.2 later hMem).1
        omega
      · rcases List.mem_cons.1 hMem with rfl | hMem
        · omega
        · have := ih.2 other hMem
          omega

end RawInstruction

/-- The instruction at a place of the list starts at an offset of the code. -/
def StartsAt (raws : List RawInstruction) (k : Nat) (offset : Int) : Prop :=
  ∃ raw, raws[k]? = some raw ∧ (raw.offset : Int) = offset

/-- What an operand becomes: branch targets the places of the instructions that start there, tokens
what the resolver knows about them. -/
inductive RawOperand.Becomes (raws : List RawInstruction) (resolver : Resolver) :
    RawOperand → Operand → Prop where
  | plain (operand : Operand) : Becomes raws resolver (.plain operand) operand
  | target {offset : Int} {k : Nat} (start : StartsAt raws k offset) :
      Becomes raws resolver (.target offset) (.target k)
  | switch {offsets : List Int} {ks : List Nat}
      (starts : List.Forall₂ (fun offset k => StartsAt raws k offset) offsets ks) :
      Becomes raws resolver (.switch offsets) (.switch ks)
  | method {t : Token} {name : String} (known : resolver.method t = .ok name) :
      Becomes raws resolver (.method t) (.method ⟨t, name⟩)
  | literal {t : Token} {text : String} (known : resolver.literal t = .ok text) :
      Becomes raws resolver (.literal t) (.literal ⟨some t, text⟩)

/-- Every branch leads to the start of an instruction, and every token is known. -/
def RawOperand.Resolvable (raws : List RawInstruction) (resolver : Resolver) : RawOperand → Prop
  | .plain _ => True
  | .target offset => ∃ k, StartsAt raws k offset
  | .switch offsets => ∀ offset ∈ offsets, ∃ k, StartsAt raws k offset
  | .method t => ∃ name, resolver.method t = .ok name
  | .literal t => ∃ text, resolver.literal t = .ok text

section

variable {raws : List RawInstruction} {resolver : Resolver} {code : Bytes} {boundaries : Boundaries}

/-- An operand becomes something exactly if what it refers to is there. -/
theorem RawOperand.exists_becomes {operand : RawOperand} :
    (∃ result, operand.Becomes raws resolver result) ↔ operand.Resolvable raws resolver := by
  constructor
  · rintro ⟨_, hBecomes⟩
    cases hBecomes with
    | plain => trivial
    | target start => exact ⟨_, start⟩
    | switch starts =>
        intro offset hMem
        obtain ⟨k, _, hStart⟩ := forall₂_mem_right starts.flip hMem
        exact ⟨k, hStart⟩
    | method known => exact ⟨_, known⟩
    | literal known => exact ⟨_, known⟩
  · intro hResolvable
    cases operand with
    | plain value => exact ⟨value, .plain value⟩
    | target offset =>
        obtain ⟨k, hStart⟩ := hResolvable
        exact ⟨.target k, .target hStart⟩
    | switch offsets =>
        choose! place hPlace using hResolvable
        refine ⟨.switch (offsets.map place), .switch ?_⟩
        rw [List.forall₂_map_right_iff, List.forall₂_same]
        exact hPlace
    | method t =>
        obtain ⟨name, hName⟩ := hResolvable
        exact ⟨.method ⟨t, name⟩, .method hName⟩
    | literal t =>
        obtain ⟨text, hText⟩ := hResolvable
        exact ⟨.literal ⟨some t, text⟩, .literal hText⟩

/-- The boundaries mark exactly the starts of the instructions. -/
def Boundaries.Marks (boundaries : Boundaries) (raws : List RawInstruction) : Prop :=
  ∀ offset k : Nat, boundaries[offset]? = some (some k) ↔ StartsAt raws k offset

/-- The array that the reader fills has the start of each instruction, and no other offset. No start
can be overwritten by a later one, since starts count up. -/
theorem Boundaries.marks_mark {size : Nat}
    (hOnce : raws.Pairwise fun raw later => raw.offset < later.offset)
    (hInside : ∀ raw ∈ raws, raw.offset < size) :
    (mark (Array.replicate size none) 0 raws).Marks raws := by
  have hMarked : ∀ (k : Nat) (raw : RawInstruction), raws[k]? = some raw →
      (mark (Array.replicate size none) 0 raws)[raw.offset]? = some (some k) := by
    intro k raw hRaw
    have hMark : (mark (Array.replicate size none) 0 raws)[raw.offset]? = some (some (0 + k)) :=
      mark_of_getElem? hOnce hRaw (by simpa using hInside raw (List.mem_of_getElem? hRaw))
    rwa [Nat.zero_add] at hMark
  intro offset k
  constructor
  · intro hMark
    by_cases hStart : ∃ raw ∈ raws, raw.offset = offset
    · obtain ⟨raw, hMem, rfl⟩ := hStart
      obtain ⟨j, hRaw⟩ := List.mem_iff_getElem?.1 hMem
      rw [hMarked j raw hRaw] at hMark
      cases hMark
      exact ⟨raw, hRaw, rfl⟩
    · rw [mark_of_notMem fun raw hMem hSame => hStart ⟨raw, hMem, hSame⟩,
        Array.getElem?_replicate] at hMark
      split at hMark <;> cases hMark
  · rintro ⟨raw, hRaw, hOffset⟩
    rw [← Int.natCast_inj.1 hOffset]
    exact hMarked k raw hRaw

/-- A branch is resolved by looking up its offset, and succeeds exactly at starts. -/
theorem Boundaries.Marks.target_eq_ok (hMarks : boundaries.Marks raws) {offset : Int} {k : Handle} :
    boundaries.target offset = .ok k ↔ StartsAt raws k offset := by
  unfold target
  by_cases hSign : 0 ≤ offset
  · obtain ⟨start, rfl⟩ := Int.eq_ofNat_of_zero_le hSign
    rw [if_pos hSign, Int.toNat_natCast, ← hMarks]
    rcases hFound : boundaries[start]? with _ | _ | found <;> simp
  · rw [if_neg hSign]
    refine iff_of_false (fun hTarget => nomatch hTarget) ?_
    rintro ⟨raw, _, hOffset⟩
    omega

/-- Resolving an operand and what it becomes are the same. There is one case for each kind of
operand. -/
theorem Boundaries.Marks.resolve_eq_ok (hMarks : boundaries.Marks raws) {raw : RawOperand}
    {operand : Operand} : raw.resolve boundaries resolver = .ok operand ↔
      raw.Becomes raws resolver operand := by
  constructor
  · intro hResolve
    cases raw with
    | plain value =>
        cases hResolve
        exact .plain _
    | target offset =>
        obtain ⟨k, hTarget, rfl⟩ := Except.map_eq_ok.1 hResolve
        exact .target (hMarks.target_eq_ok.1 hTarget)
    | switch offsets =>
        obtain ⟨ks, hTargets, rfl⟩ := Except.map_eq_ok.1 hResolve
        exact .switch ((Except.mapM_eq_ok.1 hTargets).imp fun _ _ => hMarks.target_eq_ok.1)
    | method t =>
        obtain ⟨name, hName, rfl⟩ := Except.map_eq_ok.1 hResolve
        exact .method hName
    | literal t =>
        obtain ⟨text, hText, rfl⟩ := Except.map_eq_ok.1 hResolve
        exact .literal hText
  · intro hBecomes
    cases hBecomes with
    | plain => rfl
    | target start => exact Except.map_eq_ok.2 ⟨_, hMarks.target_eq_ok.2 start, rfl⟩
    | switch starts =>
        exact Except.map_eq_ok.2
          ⟨_, Except.mapM_eq_ok.2 (starts.imp fun _ _ => hMarks.target_eq_ok.2), rfl⟩
    | method known => exact Except.map_eq_ok.2 ⟨_, known, rfl⟩
    | literal known => exact Except.map_eq_ok.2 ⟨_, known, rfl⟩

end

namespace Decoded

variable {code : Bytes} {resolver : Resolver} {raws : List RawInstruction} {d : Decoded}

/-- The instructions are those of the code, with what their operands become. -/
structure Renders (d : Decoded) (code : Bytes) (resolver : Resolver) (raws : List RawInstruction) :
    Prop where
  sequence : RawInstruction.Sequence 0 code.toList raws
  size_eq : d.listing.size = raws.length
  instruction : ∀ k raw, raws[k]? = some raw → d.listing.handleAt? k = some k ∧
    ∃ operand, d.listing.get? k = some ⟨raw.opcode, operand⟩ ∧
      raw.operand.Becomes raws resolver operand
  at_start : ∀ offset k, d.instructionAt offset = .ok (some k) ↔ StartsAt raws k offset
  at_end : ∀ offset, d.instructionAt offset = .ok none ↔ offset = code.size
  at_other : ∀ offset, (∃ fault, d.instructionAt offset = .error fault) ↔
    offset ≠ code.size ∧ ¬ ∃ k, StartsAt raws k offset

/-- Reading from the first byte gets to the end exactly if all of the code is a sequence. -/
theorem scanAll_eq_ok {all : Array RawInstruction} :
    RawInstruction.scanAll code 0 #[] = (all, none) ↔
      RawInstruction.Sequence 0 code.toList all.toList := by
  rw [RawInstruction.scanAll_eq_ok (Bytes.holds_self code) (by simp)]
  constructor
  · rintro ⟨raws, rfl, hSequence⟩
    simpa using hSequence
  · intro hSequence
    exact ⟨all.toList, by simp, hSequence⟩

/-- An offset is the end of the code, or the start of an instruction, or neither. -/
theorem instructionAt_of_marks {listing : Listing} {boundaries : Boundaries} {offset : Nat}
    (hMarks : boundaries.Marks raws) (hEnd : ∀ k, StartsAt raws k boundaries.size → False) :
    (∀ k, instructionAt ⟨listing, boundaries⟩ offset = .ok (some k) ↔ StartsAt raws k offset) ∧
      (instructionAt ⟨listing, boundaries⟩ offset = .ok none ↔ offset = boundaries.size) ∧
      ((∃ fault, instructionAt ⟨listing, boundaries⟩ offset = .error fault) ↔
        offset ≠ boundaries.size ∧ ¬ ∃ k, StartsAt raws k offset) := by
  unfold instructionAt
  by_cases hOffset : offset = boundaries.size
  · subst hOffset
    simpa using hEnd
  · have hStarts : ∀ k : Nat, StartsAt raws k offset ↔ boundaries[offset]? = some (some k) :=
      fun k => (hMarks offset k).symm
    simp only [if_neg hOffset, hStarts]
    rcases boundaries[offset]? with _ | _ | found <;> simp [hOffset]

/-- Code that is accepted is a sequence of instructions, and all of them are in the listing, in
order. -/
theorem renders_of_ofCode (hCode : ofCode code resolver = .ok d) :
    ∃ raws, d.Renders code resolver raws := by
  obtain ⟨all, boundaries, instructions, hScan, hBoundaries, hEach, rfl⟩ := ofCode_eq_ok hCode
  have hSequence := scanAll_eq_ok.1 hScan
  obtain ⟨hOnce, hInside⟩ := hSequence.offsets
  have hLess : ∀ raw ∈ all.toList, raw.offset < code.size := by
    intro raw hMem
    simpa using (hInside raw hMem).2
  have hMarks : boundaries.Marks all.toList := hBoundaries ▸ Boundaries.marks_mark hOnce hLess
  have hSize : boundaries.size = code.size := by
    rw [hBoundaries, Boundaries.size_mark, Array.size_replicate]
  have hEnd : ∀ k, StartsAt all.toList k boundaries.size → False := by
    rintro k ⟨raw, hRaw, hOffset⟩
    have := hLess raw (List.mem_of_getElem? hRaw)
    omega
  refine ⟨all.toList, hSequence, ?_, fun k raw hRaw => ?_,
    fun offset => (instructionAt_of_marks hMarks hEnd).1,
    fun offset => hSize ▸ (instructionAt_of_marks hMarks hEnd).2.1,
    fun offset => hSize ▸ (instructionAt_of_marks hMarks hEnd).2.2⟩
  · rw [Listing.size_eq, Listing.ofArray, List.size_toArray, hEach.length_eq]
  · obtain ⟨i, hi, hOpcode, hOperand⟩ := forall₂_getElem? hEach hRaw
    refine ⟨List.getElem?_range (List.getElem?_eq_some_iff.1 hi).1, i.operand, ?_,
      hMarks.resolve_eq_ok.1 hOperand⟩
    rw [Listing.get?, Listing.ofArray, List.getElem?_toArray, hi, ← hOpcode]

/-- Conversely, nothing else is asked of code. -/
theorem ofCode_of_resolvable (hSequence : RawInstruction.Sequence 0 code.toList raws)
    (hResolvable : ∀ raw ∈ raws, raw.operand.Resolvable raws resolver) :
    ∃ d, ofCode code resolver = .ok d := by
  obtain ⟨hOnce, hInside⟩ := hSequence.offsets
  have hMarks : (Boundaries.mark (Array.replicate code.size none) 0 raws).Marks raws :=
    Boundaries.marks_mark hOnce fun raw hMem => by simpa using (hInside raw hMem).2
  have hScan : RawInstruction.scanAll code 0 #[] = (raws.toArray, none) :=
    scanAll_eq_ok.2 hSequence
  simp only [← RawOperand.exists_becomes] at hResolvable
  have : Nonempty Operand := ⟨.none⟩
  choose! result hResult using hResolvable
  rw [ofCode, hScan]
  refine ⟨_, Except.bind_eq_ok.2 ⟨raws.map fun raw => ⟨raw.opcode, result raw⟩,
    Except.mapM_eq_ok.2 ?_, rfl⟩⟩
  rw [List.forall₂_map_right_iff, List.forall₂_same]
  exact fun raw hMem => Except.map_eq_ok.2 ⟨_, hMarks.resolve_eq_ok.2 (hResult raw hMem), rfl⟩

/-- The bytes decide the instructions, since reading them gives one result only. -/
theorem unique_of_sequence {other : List RawInstruction}
    (hSequence : RawInstruction.Sequence 0 code.toList raws)
    (hOther : RawInstruction.Sequence 0 code.toList other) : other = raws := by
  have hScan : RawInstruction.scanAll code 0 #[] = (raws.toArray, none) :=
    scanAll_eq_ok.2 hSequence
  have hScan' : RawInstruction.scanAll code 0 #[] = (other.toArray, none) := scanAll_eq_ok.2 hOther
  rw [hScan] at hScan'
  simpa using (congrArg (·.1.toList) hScan').symm

/-- Code is accepted exactly if it is a sequence of instructions in which every branch leads to the
start of one of them and every token is known. There is no more than one such sequence, and it
decides the instructions and what stands at each offset. -/
theorem ofCode_accepts (code : Bytes) (resolver : Resolver) :
    ((∃ d, ofCode code resolver = .ok d) ↔
      ∃ raws, RawInstruction.Sequence 0 code.toList raws ∧
        ∀ raw ∈ raws, raw.operand.Resolvable raws resolver) ∧
    ∀ d, ofCode code resolver = .ok d →
      ∃ raws, d.Renders code resolver raws ∧
        ∀ other, RawInstruction.Sequence 0 code.toList other → other = raws := by
  refine ⟨⟨?_, ?_⟩, fun d hCode => ?_⟩
  · rintro ⟨d, hCode⟩
    obtain ⟨raws, hRenders⟩ := renders_of_ofCode hCode
    refine ⟨raws, hRenders.sequence, fun raw hMem => RawOperand.exists_becomes.1 ?_⟩
    obtain ⟨k, hRaw⟩ := List.mem_iff_getElem?.1 hMem
    obtain ⟨_, operand, _, hBecomes⟩ := hRenders.instruction k raw hRaw
    exact ⟨operand, hBecomes⟩
  · rintro ⟨raws, hSequence, hResolvable⟩
    exact ofCode_of_resolvable hSequence hResolvable
  · obtain ⟨raws, hRenders⟩ := renders_of_ofCode hCode
    exact ⟨raws, hRenders, fun other => unique_of_sequence hRenders.sequence⟩

end Decoded

end IlSplice
