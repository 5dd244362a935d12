import IlSplice.Proofs.Body.RoundTrip

/-! Reading a body depends on its own bytes and on what its tokens refer to. A body is read again
from other data with the same bytes, by every resolver that knows as much. -/

namespace IlSplice

open Bytes

/-- The other resolver knows everything that this one knows. -/
structure Resolver.Extends (r r' : Resolver) : Prop where
  method : ∀ t name, r.method t = .ok name → r'.method t = .ok name
  literal : ∀ t text, r.literal t = .ok text → r'.literal t = .ok text

variable {resolver resolver' : Resolver} {data other : Bytes} {start stop : Nat}

/-- A resolver is only asked for what an operand names, so that one that knows more gives the same
answers. -/
theorem RawOperand.resolve_of_extends {raw : RawOperand} {boundaries : Boundaries}
    {operand : Operand} (hExtends : resolver.Extends resolver')
    (hResolve : raw.resolve boundaries resolver = .ok operand) :
    raw.resolve boundaries resolver' = .ok operand := by
  cases raw with
  | plain value => exact hResolve
  | target offset => exact hResolve
  | switch offsets => exact hResolve
  | method t =>
      obtain ⟨name, hName, hOperand⟩ := Except.bind_eq_ok.1 hResolve
      exact Except.bind_eq_ok.2 ⟨name, hExtends.method t name hName, hOperand⟩
  | literal t =>
      obtain ⟨text, hText, hOperand⟩ := Except.bind_eq_ok.1 hResolve
      exact Except.bind_eq_ok.2 ⟨text, hExtends.literal t text hText, hOperand⟩

/-- An operand that is read as it is neither refers to anything nor has to be looked up. -/
theorem RawOperand.plain_of_scan {kind : OperandKind} {operand : Operand}
    (hScan : RawOperand.scan kind data start = .ok (.plain operand) stop) :
    operand.targets = [] ∧ (∀ callee, operand ≠ .method callee) ∧
      ∀ text, operand ≠ .literal text := by
  cases kind with
  | none =>
      obtain ⟨hSame, _⟩ := Scan.pure_eq_ok.1 hScan
      cases hSame
      exact ⟨rfl, by simp, by simp⟩
  | int8 | uint8 | uint16 | int32 | int64 | float32 | float64 | token =>
      obtain ⟨_, _, _, hPure⟩ := Scan.bind_eq_ok hScan
      obtain ⟨hSame, _⟩ := Scan.pure_eq_ok.1 hPure
      cases hSame
      exact ⟨rfl, by simp, by simp⟩
  | method | literal =>
      obtain ⟨_, _, _, hPure⟩ := Scan.bind_eq_ok hScan
      obtain ⟨hSame, _⟩ := Scan.pure_eq_ok.1 hPure
      cases hSame
  | shortBranch | branch =>
      obtain ⟨_, _, _, hRest⟩ := Scan.bind_eq_ok hScan
      obtain ⟨_, _, _, hPure⟩ := Scan.bind_eq_ok hRest
      obtain ⟨hSame, _⟩ := Scan.pure_eq_ok.1 hPure
      cases hSame
  | switch =>
      obtain ⟨count, _, _, hRest⟩ := Scan.bind_eq_ok hScan
      obtain ⟨_, _, _, hRest⟩ := Scan.bind_eq_ok hRest
      split at hRest
      · cases hRest
      obtain ⟨_, _, _, hRest⟩ := Scan.bind_eq_ok hRest
      obtain ⟨_, _, _, hPure⟩ := Scan.bind_eq_ok hRest
      obtain ⟨hSame, _⟩ := Scan.pure_eq_ok.1 hPure
      cases hSame

/-- What a token stands for is found by it, and no literal is without one. -/
theorem RawOperand.knows_of_scan {kind : OperandKind} {raw : RawOperand} {boundaries : Boundaries}
    {operand : Operand} (hScan : RawOperand.scan kind data start = .ok raw stop)
    (hResolve : raw.resolve boundaries resolver = .ok operand) :
    resolver.Knows operand ∧ ∀ text, operand ≠ .literal ⟨none, text⟩ := by
  cases raw with
  | plain value =>
      cases hResolve
      obtain ⟨-, hMethod, hLiteral⟩ := RawOperand.plain_of_scan hScan
      refine ⟨?_, fun text => hLiteral _⟩
      cases operand with
      | method callee => exact (hMethod callee rfl).elim
      | literal text => exact (hLiteral text rfl).elim
      | _ => trivial
  | target offset =>
      obtain ⟨target, _, hOperand⟩ := Except.bind_eq_ok.1 hResolve
      cases hOperand
      exact ⟨trivial, by simp⟩
  | switch offsets =>
      obtain ⟨targets, _, hOperand⟩ := Except.bind_eq_ok.1 hResolve
      cases hOperand
      exact ⟨trivial, by simp⟩
  | method t =>
      obtain ⟨name, hName, hOperand⟩ := Except.bind_eq_ok.1 hResolve
      cases hOperand
      exact ⟨hName, by simp⟩
  | literal t =>
      obtain ⟨text, hText, hOperand⟩ := Except.bind_eq_ok.1 hResolve
      cases hOperand
      exact ⟨hText, by simp⟩

/-- Which kind of operand was read is decided by the opcode, and does not matter here. -/
theorem RawInstruction.operand_of_scan {raw : RawInstruction}
    (hScan : RawInstruction.scan data start = .ok raw stop) :
    ∃ kind middle last, RawOperand.scan kind data middle = .ok raw.operand last := by
  obtain ⟨_, _, hPosition, hScan⟩ := Scan.bind_eq_ok hScan
  cases hPosition
  obtain ⟨value, middle, _, hScan⟩ := Scan.bind_eq_ok hScan
  generalize Opcode.ofValue? value = opcode? at hScan
  cases opcode? with
  | none => cases hScan
  | some opcode =>
      obtain ⟨operand, last, hOperand, hScan⟩ := Scan.bind_eq_ok hScan
      obtain ⟨_, _, hPosition, hScan⟩ := Scan.bind_eq_ok hScan
      cases hPosition
      obtain ⟨rfl, _⟩ := Scan.pure_eq_ok.1 hScan
      exact ⟨_, middle, last, hOperand⟩

namespace Decoded

variable {code : Bytes} {d : Decoded}

/-- Reading goes over the code twice: the instructions first, and then their operands, once all
starts are known. -/
theorem ofCode_eq_ok (hCode : ofCode code resolver = .ok d) :
    ∃ raws boundaries instructions, RawInstruction.scanAll code 0 #[] = (raws, none) ∧
      boundaries = Boundaries.mark (Array.replicate code.size none) 0 raws.toList ∧
      List.Forall₂ (fun raw i => i.opcode = raw.opcode ∧
        raw.operand.resolve boundaries resolver = .ok i.operand) raws.toList instructions ∧
      d = ⟨.ofArray instructions.toArray, boundaries⟩ := by
  unfold ofCode at hCode
  split at hCode
  · cases hCode
  · rename_i raws hScan
    obtain ⟨instructions, hEach, hCode⟩ := Except.bind_eq_ok.1 hCode
    cases hCode
    refine ⟨raws, _, instructions, hScan, rfl, (Except.mapM_eq_ok.1 hEach).imp ?_, rfl⟩
    intro raw i hRaw
    obtain ⟨operand, hOperand, rfl⟩ := Except.map_eq_ok.1 hRaw
    exact ⟨rfl, hOperand⟩

theorem ofCode_of_extends (hExtends : resolver.Extends resolver')
    (hCode : ofCode code resolver = .ok d) : ofCode code resolver' = .ok d := by
  obtain ⟨raws, boundaries, instructions, hScan, hBoundaries, hEach, rfl⟩ := ofCode_eq_ok hCode
  rw [ofCode, hScan]
  dsimp only
  rw [← hBoundaries]
  refine Except.bind_eq_ok.2 ⟨instructions, Except.mapM_eq_ok.2 (hEach.imp ?_), rfl⟩
  rintro raw ⟨opcode, operand⟩ ⟨rfl, hOperand⟩
  exact Except.map_eq_ok.2 ⟨operand, RawOperand.resolve_of_extends hExtends hOperand, rfl⟩

/-- Every instruction that was found was read somewhere in the code. By induction along the
recursion of the reader. -/
theorem scan_of_mem_scanAll {position : Nat} {found raws : Array RawInstruction}
    {rest : Option (Fault × Nat)}
    (hFound : ∀ raw ∈ found, ∃ start stop, RawInstruction.scan code start = .ok raw stop)
    (hScan : RawInstruction.scanAll code position found = (raws, rest)) :
    ∀ raw ∈ raws, ∃ start stop, RawInstruction.scan code start = .ok raw stop := by
  fun_induction RawInstruction.scanAll code position found with
  | case1 position found _ raw next hRaw _ ih =>
      refine ih (fun raw' hMem => ?_) hScan
      rcases Array.mem_push.1 hMem with hMem | rfl
      · exact hFound raw' hMem
      · exact ⟨position, next, hRaw⟩
  | case2 =>
      cases hScan
      exact hFound
  | case3 =>
      cases hScan
      exact hFound

/-- All operands of code that was taken apart are known, by tokens in the code. -/
theorem knows_of_ofCode (hCode : ofCode code resolver = .ok d) :
    ∀ i ∈ d.listing.slots, resolver.Knows i.operand ∧
      ∀ text, i.operand ≠ .literal ⟨none, text⟩ := by
  obtain ⟨raws, boundaries, instructions, hScan, -, hEach, rfl⟩ := ofCode_eq_ok hCode
  intro i hMem
  obtain ⟨raw, hRaw, -, hOperand⟩ :=
    forall₂_mem_right hEach (by simpa [Listing.ofArray] using hMem)
  obtain ⟨start, stop, hOne⟩ := scan_of_mem_scanAll (by simp) hScan raw (by simpa using hRaw)
  obtain ⟨kind, middle, last, hKind⟩ := RawInstruction.operand_of_scan hOne
  exact RawOperand.knows_of_scan hKind hOperand

end Decoded

namespace MethodHeader

variable {header : MethodHeader} {lead : Nat}

/-- Reads the header whose first byte is given. -/
def scanFormat (lead : Nat) : Scan MethodHeader :=
  if lead % 4 = 2 then scanTiny lead
  else if lead % 4 = 3 then scanFat
  else throw (.headerFormat lead)

theorem local_scanFormat (lead : Nat) : Scan.Local (scanFormat lead) := by
  unfold scanFormat
  split
  · exact (Scan.local_skip 1).bind fun _ => Scan.local_pure _
  · split
    · refine (Scan.local_uint 2).bind fun _ => Scan.local_u16.bind fun _ =>
        (Scan.local_uint 4).bind fun _ => Scan.local_token.bind fun _ => ?_
      dsimp only
      split
      · exact Scan.local_pure _
      · exact Scan.local_throw _
    · exact Scan.local_throw _

theorem lt_of_scanFormat (hScan : scanFormat lead data start = .ok header stop) :
    start < stop := by
  unfold scanFormat at hScan
  split at hScan
  · obtain ⟨_, middle, hSkip, hPure⟩ := Scan.bind_eq_ok hScan
    obtain ⟨-, rfl⟩ := Scan.pure_eq_ok.1 hPure
    have := (Scan.skip_eq_ok hSkip).1
    omega
  · split at hScan
    · obtain ⟨flags, middle, hFlags, hRest⟩ := Scan.bind_eq_ok hScan
      have hFirst := (Scan.uint_eq_ok hFlags).1
      have hForward : Scan.Forward (Scan.u16 >>= fun maxStack => Scan.uint 4 >>= fun codeSize =>
          Scan.token >>= fun locals =>
            if flags >>> 12 * 4 = fatSize then
              pure (⟨true, flags >>> 12 * 4, codeSize, maxStack, locals, flags.testBit 4,
                flags.testBit 3⟩ : MethodHeader)
            else throw (.fatHeaderSize (flags >>> 12 * 4))) := by
        refine Scan.forward_u16.bind fun _ => (Scan.forward_uint 4).bind fun _ =>
          Scan.forward_token.bind fun _ => ?_
        split
        · exact Scan.forward_pure _
        · exact Scan.forward_throw _
      have := hForward.le hRest
      omega
    · cases hScan

/-- A header is accepted if one of its forms is, and if the code that it announces is there. -/
theorem scan_eq_ok : scan data start = .ok header stop ↔
    ∃ lead, data[start]? = some lead ∧ scanFormat lead.toNat data start = .ok header stop ∧
      stop + header.codeSize ≤ data.size := by
  constructor
  · intro hScan
    unfold scan at hScan
    split at hScan
    · cases hScan
    rename_i lead hLead
    dsimp only at hScan
    split at hScan
    · cases hScan
    rename_i h middle hHeader
    split at hScan
    · rename_i hInside
      cases hScan
      exact ⟨lead, hLead, hHeader, hInside⟩
    · cases hScan
  · rintro ⟨lead, hLead, hHeader, hInside⟩
    unfold scanFormat at hHeader
    rw [scan, hLead]
    dsimp only
    rw [hHeader]
    exact if_pos hInside

/-- The header depends on its own bytes, as long as the code is there as well. -/
theorem scan_congr (hScan : scan data start = .ok header stop)
    (hAgree : data.Agree other start stop) (hSize : stop + header.codeSize ≤ other.size) :
    scan other start = .ok header stop := by
  obtain ⟨lead, hLead, hHeader, _⟩ := scan_eq_ok.1 hScan
  have hFirst := lt_of_scanFormat hHeader
  exact scan_eq_ok.2 ⟨lead, (hAgree start (Nat.le_refl _) hFirst).symm.trans hLead,
    (local_scanFormat _).congr hHeader hAgree (by omega), hSize⟩

end MethodHeader

namespace Clause

variable {fat : Bool} {origin : Nat} {clauses found : List Clause}

theorem local_scan (fat : Bool) : Scan.Local (scan fat) :=
  (Scan.local_uint _).bind fun _ => (Scan.local_uint _).bind fun _ =>
    (Scan.local_uint _).bind fun _ => (Scan.local_uint _).bind fun _ =>
      (Scan.local_uint _).bind fun _ => Scan.local_u32.bind fun _ => Scan.local_pure _

/-- A clause takes its size, and its flags have no bits without a meaning. -/
theorem moves_scan (fat : Bool) :
    Scan.Moves (scan fat) (Clause.size fat) fun c => c.flags.bits.toNat < 8 := by
  intro data start c stop hScan
  obtain ⟨flags, p₁, h₁, hScan⟩ := Scan.bind_eq_ok hScan
  obtain ⟨tryOffset, p₂, h₂, hScan⟩ := Scan.bind_eq_ok hScan
  obtain ⟨tryLength, p₃, h₃, hScan⟩ := Scan.bind_eq_ok hScan
  obtain ⟨handlerOffset, p₄, h₄, hScan⟩ := Scan.bind_eq_ok hScan
  obtain ⟨handlerLength, p₅, h₅, hScan⟩ := Scan.bind_eq_ok hScan
  obtain ⟨classOrFilter, p₆, h₆, hScan⟩ := Scan.bind_eq_ok hScan
  obtain ⟨rfl, rfl⟩ := Scan.pure_eq_ok.1 hScan
  have := (Scan.uint_eq_ok h₁).1
  have := (Scan.uint_eq_ok h₂).1
  have := (Scan.uint_eq_ok h₃).1
  have := (Scan.uint_eq_ok h₄).1
  have := (Scan.uint_eq_ok h₅).1
  have := (Scan.uint_map_eq_ok h₆).1
  constructor
  · cases fat <;> simp only [Clause.size, if_true, Bool.false_eq_true, if_false] at * <;> omega
  · simp only [ClauseFlags.ofNat, UInt16.toNat_ofNat']
    omega

/-- The size of a section depends on its three bytes, also where two of them do not matter. -/
theorem local_scanSectionSize (fat : Bool) : Scan.Local (scanSectionSize fat) := by
  unfold scanSectionSize
  split
  · exact Scan.local_uint 3
  · exact (Scan.local_uint 1).bind fun _ => (Scan.local_skip 2).bind fun _ => Scan.local_pure _

/-- The parts of a section, each of which ends where the next one starts. -/
theorem scanSection_eq_ok {more : Bool}
    (hScan : scanSection origin data start = .ok (clauses, more) stop) :
    ∃ aligned lead behind size first last, Scan.align origin 4 data start = .ok () aligned ∧
      Scan.u8 data aligned = .ok lead behind ∧ (SectionFlags.ofByte lead).exceptions = true ∧
      (SectionFlags.ofByte lead).more = more ∧
      scanSectionSize (SectionFlags.ofByte lead).fat data behind = .ok size first ∧ 4 ≤ size ∧
      Scan.times ((size - 4) / Clause.size (SectionFlags.ofByte lead).fat)
        (scan (SectionFlags.ofByte lead).fat) data first = .ok clauses last ∧
      stop = aligned + size ∧ stop ≤ data.size := by
  obtain ⟨_, aligned, hAlign, hScan⟩ := Scan.bind_eq_ok hScan
  obtain ⟨_, _, hPosition, hScan⟩ := Scan.bind_eq_ok hScan
  cases hPosition
  obtain ⟨lead, behind, hLead, hScan⟩ := Scan.bind_eq_ok hScan
  dsimp only at hScan
  split at hScan
  · cases hScan
  rename_i hKind
  obtain ⟨size, first, hSize, hScan⟩ := Scan.bind_eq_ok hScan
  split at hScan
  · cases hScan
  rename_i hLarge
  obtain ⟨found, last, hTimes, hScan⟩ := Scan.bind_eq_ok hScan
  obtain ⟨_, _, hSeek, hScan⟩ := Scan.bind_eq_ok hScan
  cases hScan
  obtain ⟨rfl, hStop⟩ := Scan.seek_eq_ok hSeek
  exact ⟨aligned, lead, behind, size, first, last, hAlign, hLead, by simpa using hKind, rfl, hSize,
    Nat.le_of_not_lt hLarge, hTimes, rfl, hStop⟩

/-- The size of a section stands in the three bytes behind the flags. -/
theorem scanSectionSize_eq_ok {size : Nat} : scanSectionSize fat data start = .ok size stop ↔
    size = data.uintAt start (if fat then 3 else 1) ∧ stop = start + 3 ∧ stop ≤ data.size := by
  unfold scanSectionSize
  cases fat with
  | true =>
      simp only [if_true]
      constructor
      · intro hScan
        obtain ⟨hStop, hInside, hSize⟩ := Scan.uint_eq_ok hScan
        exact ⟨hSize, hStop, hInside⟩
      · rintro ⟨rfl, rfl, hInside⟩
        exact if_pos hInside
  | false =>
      simp only [Bool.false_eq_true, if_false]
      constructor
      · intro hScan
        obtain ⟨_, middle, hSize, hRest⟩ := Scan.bind_eq_ok hScan
        obtain ⟨_, last, hSkip, hPure⟩ := Scan.bind_eq_ok hRest
        obtain ⟨rfl, rfl⟩ := Scan.pure_eq_ok.1 hPure
        obtain ⟨rfl, -, rfl⟩ := Scan.uint_eq_ok hSize
        obtain ⟨rfl, hInside⟩ := Scan.skip_eq_ok hSkip
        exact ⟨rfl, rfl, hInside⟩
      · rintro ⟨rfl, rfl, hInside⟩
        rw [Scan.bind_of_ok (show Scan.uint 1 data start = _ from if_pos (by omega)),
          Scan.bind_of_ok (Scan.skip_of_le (by omega))]
        rfl

/-- The clauses of a section end where the section ends, or before. -/
theorem scanSection_congr {more : Bool}
    (hScan : scanSection origin data start = .ok (clauses, more) stop)
    (hAgree : data.Agree other start stop) (hSize : stop ≤ other.size) :
    (∀ c ∈ clauses, c.flags.bits.toNat < 8) ∧
      scanSection origin other start = .ok (clauses, more) stop := by
  obtain ⟨aligned, lead, behind, size, first, last, hAlign, hLead, hKind, rfl, hLength, hLarge,
    hTimes, rfl, _⟩ := scanSection_eq_ok hScan
  have hAligned := (Scan.local_align origin 4).le hAlign
  have hBehind := (Scan.uint_map_eq_ok hLead).1
  obtain ⟨-, hFirst, -⟩ := scanSectionSize_eq_ok.1 hLength
  obtain ⟨hLast, hFlags⟩ := (moves_scan _).times _ _ _ _ _ hTimes
  have hRoom : (size - 4) / Clause.size (SectionFlags.ofByte lead).fat
      * Clause.size (SectionFlags.ofByte lead).fat ≤ size - 4 := Nat.div_mul_le_self _ _
  refine ⟨hFlags, ?_⟩
  rw [scanSection, Scan.bind_of_ok ((Scan.local_align origin 4).congr hAlign
      (hAgree.mono (Nat.le_refl _) (by omega)) (by omega)),
    Scan.bind_of_ok (show Scan.position other _ = .ok _ _ from rfl),
    Scan.bind_of_ok (Scan.local_u8.congr hLead (hAgree.mono hAligned (by omega)) (by omega)),
    hKind, if_neg (by decide), Scan.bind_of_ok ((local_scanSectionSize _).congr hLength
      (hAgree.mono (by omega) (by omega)) (by omega)), if_neg (by omega),
    Scan.bind_of_ok ((Scan.local_times (local_scan _) _).congr hTimes
      (hAgree.mono (by omega) (by omega)) (by omega)),
    Scan.bind_of_ok (show Scan.seek (aligned + size) other last = .ok () (aligned + size) from
      if_pos hSize)]
  rfl

/-- By induction along the walk. Flags that no clause of the walk has are not there in the end
either. -/
theorem scanSections_congr (hScan : scanSections origin found data start = .ok clauses stop) :
    start < stop ∧ stop ≤ data.size ∧
      ((∀ c ∈ found, c.flags.bits.toNat < 8) → ∀ c ∈ clauses, c.flags.bits.toNat < 8) ∧
      ∀ other : Bytes, data.Agree other start stop → stop ≤ other.size →
        scanSections origin found other start = .ok clauses stop := by
  fun_induction scanSections origin found data start with
  | case1 => cases hScan
  | case2 found start read middle hSection =>
      cases hScan
      obtain ⟨hLess, hStop⟩ := bounds_of_scanSection hSection
      refine ⟨hLess, hStop, fun hFound => ?_, fun other hAgree hSize => ?_⟩
      · rw [List.forall_mem_append]
        exact ⟨hFound, (scanSection_congr hSection (fun _ _ _ => rfl) hStop).1⟩
      · exact scanSections_of_last (scanSection_congr hSection hAgree hSize).2
  | case3 found start read middle hSection hBounds ih =>
      obtain ⟨hLess, hStop, hFlags, hCongr⟩ := ih hScan
      refine ⟨by omega, hStop, fun hFound => hFlags ?_, fun other hAgree hSize => ?_⟩
      · rw [List.forall_mem_append]
        exact ⟨hFound, (scanSection_congr hSection (fun _ _ _ => rfl) hBounds.2).1⟩
      · have hFirst := (scanSection_congr hSection (hAgree.mono (Nat.le_refl _)
          (Nat.le_of_lt hLess)) (by omega)).2
        rw [scanSections_of_more hFirst]
        exact hCongr other (hAgree.mono (Nat.le_of_lt hBounds.1) (Nat.le_refl _)) hSize

end Clause

namespace Handler

/-- The filter and the type of a handler come from the flags of its clause, so that they fit them.
-/
theorem wellFormed_of_ofClause {d : Decoded} {c : Clause} {h : Handler}
    (hFlags : c.flags.bits.toNat < 8) (hClause : ofClause d c = .ok h) : h.WellFormed := by
  rw [ofClause_eq] at hClause
  obtain ⟨filter, hFilter, hClause⟩ := Except.bind_eq_ok.1 hClause
  obtain ⟨tryStart, _, hClause⟩ := Except.bind_eq_ok.1 hClause
  obtain ⟨tryEnd, _, hClause⟩ := Except.bind_eq_ok.1 hClause
  obtain ⟨handlerStart, _, hClause⟩ := Except.bind_eq_ok.1 hClause
  obtain ⟨handlerEnd, _, hClause⟩ := Except.bind_eq_ok.1 hClause
  cases hClause
  refine ⟨hFlags, ?_, ?_⟩
  · unfold filterOf at hFilter
    dsimp only
    split at hFilter
    · rename_i hIs
      obtain ⟨start, _, rfl⟩ := Except.map_eq_ok.1 hFilter
      rw [hIs, Option.isSome_some]
    · rename_i hIs
      cases hFilter
      simpa using hIs
  · dsimp only
    split
    · rename_i hIs
      rw [hIs, Option.isSome_some]
    · rename_i hIs
      simpa using hIs

end Handler

namespace MethodBody

variable {b : MethodBody}

/-- Sections behind the code, if the header announces any. -/
def scanClauses (header : MethodHeader) (origin : Nat) : Scan (List Clause) :=
  if header.moreSections then Clause.scanSections origin [] else pure []

/-- The parts of a body that was read. -/
theorem scan_eq_ok (hScan : scan resolver data start = .ok b stop) :
    ∃ header middle d clauses, MethodHeader.scan data start = .ok header middle ∧
      Decoded.ofCode (data.extract middle (middle + header.codeSize)) resolver = .ok d ∧
      scanClauses header start data (middle + header.codeSize) = .ok clauses stop ∧
      clauses.mapM (Handler.ofClause d) = .ok b.handlers ∧
      b = ⟨header.maxStack, header.locals, header.initLocals, d.listing, b.handlers⟩ := by
  obtain ⟨_, _, hPosition, hScan⟩ := Scan.bind_eq_ok hScan
  cases hPosition
  obtain ⟨header, middle, hHeader, hScan⟩ := Scan.bind_eq_ok hScan
  obtain ⟨code, behind, hCode, hScan⟩ := Scan.bind_eq_ok hScan
  obtain ⟨d, last, hDecode, hScan⟩ := Scan.bind_eq_ok hScan
  obtain ⟨rfl, hInside, rfl⟩ := Scan.bytes_eq_ok hCode
  obtain ⟨hDecoded, rfl⟩ := Scan.check_eq_ok.1 hDecode
  refine ⟨header, middle, d, ?_⟩
  -- The clauses are read in one of two ways, and the handlers behind them in the same way.
  unfold scanClauses
  dsimp only at hScan
  split at hScan
  · rename_i hMore
    obtain ⟨clauses, last, hClauses, hScan⟩ := Scan.bind_eq_ok hScan
    obtain ⟨handlers, final, hCheck, hScan⟩ := Scan.bind_eq_ok hScan
    obtain ⟨hHandlers, rfl⟩ := Scan.check_eq_ok.1 hCheck
    obtain ⟨rfl, rfl⟩ := Scan.pure_eq_ok.1 hScan
    exact ⟨clauses, hHeader, hDecoded, by rwa [if_pos hMore], hHandlers, rfl⟩
  · rename_i hMore
    obtain ⟨clauses, last, hClauses, hScan⟩ := Scan.bind_eq_ok hScan
    obtain ⟨handlers, final, hCheck, hScan⟩ := Scan.bind_eq_ok hScan
    obtain ⟨hHandlers, rfl⟩ := Scan.check_eq_ok.1 hCheck
    obtain ⟨rfl, rfl⟩ := Scan.pure_eq_ok.1 hScan
    exact ⟨clauses, hHeader, hDecoded, by rwa [if_neg hMore], hHandlers, rfl⟩

/-- Without sections behind the code nothing is read, and the position stays where the code ends. -/
theorem scanClauses_congr {header : MethodHeader} {origin : Nat} {clauses : List Clause}
    (hScan : scanClauses header origin data start = .ok clauses stop) (hStart : start ≤ data.size) :
    start ≤ stop ∧ stop ≤ data.size ∧ (∀ c ∈ clauses, c.flags.bits.toNat < 8) ∧
      ∀ other : Bytes, data.Agree other start stop → stop ≤ other.size →
        scanClauses header origin other start = .ok clauses stop := by
  unfold scanClauses at hScan ⊢
  split at hScan
  · rename_i hMore
    obtain ⟨hLess, hStop, hFlags, hCongr⟩ := Clause.scanSections_congr hScan
    rw [if_pos hMore]
    exact ⟨Nat.le_of_lt hLess, hStop, hFlags (by simp), hCongr⟩
  · rename_i hMore
    obtain ⟨rfl, rfl⟩ := Scan.pure_eq_ok.1 hScan
    rw [if_neg hMore]
    exact ⟨Nat.le_refl _, hStart, by simp, fun _ _ _ => rfl⟩

/-- A body is read from its own bytes, and its handlers are well formed. -/
theorem scan_congr (hScan : scan resolver data start = .ok b stop) :
    start < stop ∧ stop ≤ data.size ∧ (∀ h ∈ b.handlers, h.WellFormed) ∧
      (∀ i ∈ b.listing.slots, resolver.Knows i.operand ∧
        ∀ text, i.operand ≠ .literal ⟨none, text⟩) ∧
      ∀ (other : Bytes) (resolver' : Resolver), data.Agree other start stop → stop ≤ other.size →
        resolver.Extends resolver' → scan resolver' other start = .ok b stop := by
  obtain ⟨header, middle, d, clauses, hHeader, hDecoded, hClauses, hHandlers, hBody⟩ :=
    scan_eq_ok hScan
  obtain ⟨lead, hLead, hFormat, hInside⟩ := MethodHeader.scan_eq_ok.1 hHeader
  have hFirst := MethodHeader.lt_of_scanFormat hFormat
  obtain ⟨hLe, hStop, hFlags, hCongr⟩ := scanClauses_congr hClauses hInside
  refine ⟨by omega, hStop, fun h hMem => ?_, ?_, fun other resolver' hAgree hSize hExtends => ?_⟩
  · obtain ⟨c, hMemClause, hClause⟩ :=
      forall₂_mem_right (Except.mapM_eq_ok.1 hHandlers) hMem
    exact Handler.wellFormed_of_ofClause (hFlags c hMemClause) hClause
  · rw [hBody]
    exact Decoded.knows_of_ofCode hDecoded
  · have hCode : (other.extract middle (middle + header.codeSize)).size = header.codeSize := by
      rw [Array.size_extract]
      omega
    have hSame : data.extract middle (middle + header.codeSize)
        = other.extract middle (middle + header.codeSize) :=
      (hAgree.mono (Nat.le_of_lt hFirst) hLe : data.Agree other middle _).extract hInside
        (by omega)
    rw [hSame] at hDecoded
    rw [hBody]
    refine scan_of_parts (MethodHeader.scan_congr hHeader (hAgree.mono (Nat.le_refl _) (by omega))
      (by omega)) hCode ?_ (Decoded.ofCode_of_extends hExtends hDecoded) ?_ hHandlers
    · exact Bytes.holds_extract (Nat.le_add_right _ _) (by omega)
    · rw [hCode]
      exact hCongr other (hAgree.mono (by omega) (Nat.le_refl _)) hSize

end MethodBody

end IlSplice
