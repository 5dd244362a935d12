import IlSplice.Proofs.Code.Spelling
import IlSplice.Proofs.Machine.Reading

/-! The code of a method in words. Branch targets are sums of positions and displacements; for
code that a method header can describe they fit, and so do all offsets and handles. -/

namespace IlSplice

open Machine Reading

/-- The position of the next byte to read, as a signed word. -/
def Reading.signedPosition : Reading Int := fun _ position => do
  let here ← fitSigned 64 position
  return (here, position)

/-- Reads an operand. Displacements count from the end of the whole instruction. -/
def RawOperand.read : OperandKind → Reading RawOperand
  | .none => return .plain .none
  | .int8 => return .plain (.int8 (Int8.ofInt (← int 1)))
  | .uint8 => return .plain (.uint8 (UInt8.ofNat (← uint 1)))
  | .uint16 => return .plain (.uint16 (UInt16.ofNat (← uint 2)))
  | .int32 => return .plain (.int32 (Int32.ofInt (← int 4)))
  | .int64 => return .plain (.int64 (Int64.ofInt (← int 8)))
  | .float32 => return .plain (.float32 (UInt32.ofNat (← uint 4)))
  | .float64 => return .plain (.float64 (UInt64.ofNat (← uint 8)))
  | .token => return .plain (.token (← token))
  | .method => return .method (← token)
  | .literal => return .literal (← token)
  | .shortBranch => do
    let displacement ← int 1
    let here ← signedPosition
    return .target (← compute (fitSigned 64 (here + displacement)))
  | .branch => do
    let displacement ← int 4
    let here ← signedPosition
    return .target (← compute (fitSigned 64 (here + displacement)))
  | .switch => do
    let count ← uint 4
    let room ← compute (divide (← remaining) 4)
    if room < count then fault .outOfBounds
    else
      let displacements ← times count (int 4)
      let stop ← signedPosition
      return .switch (← compute (displacements.mapM fun d => fitSigned 64 (stop + d)))

/-- Reads the value of an opcode, which takes a second byte behind the escape byte. -/
def Opcode.readValue : Reading Nat := do
  let first ← uint 1
  if first = Opcode.escape then return first * 256 + (← uint 1) else return first

namespace RawInstruction

/-- Reads one instruction, with its offset and its size in 32 bits. -/
def read : Reading RawInstruction := do
  let start ← position
  let value ← Opcode.readValue
  match Opcode.ofValue? value with
  | none => fault (.badOpcode value)
  | some opcode =>
    let operand ← RawOperand.read opcode.operand
    let size ← compute (sub (← position) start)
    return ⟨← compute (fit 32 start), ← compute (fit 32 size), opcode, operand⟩

/-- Reads one more instruction behind those found so far, if there is more code. Its handle, the
number of instructions before it, has 32 bits. -/
def readNext (found : Array RawInstruction) : Reading (Array RawInstruction × Bool) := do
  let s ← MonadReader.read
  if (← position) < s.bytes.size then
    let raw ← read
    let _ ← compute (fit 32 found.size)
    return (found.push raw, true)
  else return (found, false)

end RawInstruction

/-- Takes code apart. Targets and handles are looked up by key, which finds something or not. -/
def Decoded.read (code : Slice) (resolver : Resolver) : Machine Decoded := do
  let raws ← (rounds RawInstruction.readNext #[]).evalAt code 0
  let size ← fit 32 code.bytes.size
  let boundaries := Boundaries.mark (Array.replicate size none) 0 raws.toList
  let instructions ← ofChecked (raws.toList.mapM fun raw =>
    return ⟨raw.opcode, ← raw.operand.resolve boundaries resolver⟩)
  return ⟨.ofArray instructions.toArray, boundaries⟩

variable {s : Slice} {start : Nat}

/-- Positions and displacements of four bytes are far from the ends of 64 bits, and so are their
sums. -/
theorem fitSigned_of_near {n : Int} (hLow : -(2 ^ 33 : Int) ≤ n) (hHigh : n < 2 ^ 33) :
    fitSigned 64 n = .ok n :=
  fitSigned_of_le (by omega) (by omega)

/-- Positions in code that a header can describe are small enough to count as signed. -/
theorem signedPosition_eq (hStart : start < 2 ^ 32) :
    signedPosition s start = .ok ((start : Int), start) := by
  rw [signedPosition, fitSigned_of_near (by omega) (by omega)]
  rfl

/-- A displacement of up to four bytes. -/
theorem near_of_int {width : Nat} (hWidth : 0 < width ∧ width ≤ 4) {data : Bytes} {stop : Nat}
    {n : Int} (hScan : Scan.int width data start = .ok n stop) :
    stop = start + width ∧ stop ≤ data.size ∧ -(2 ^ 32 : Int) ≤ n ∧ n < 2 ^ 32 := by
  obtain ⟨rfl, hStop, rfl⟩ := Scan.uint_map_eq_ok hScan
  have hRange := inRange_signedValue hWidth.1 (Bytes.uintAt_lt data start width)
  have hBytes : byteRange width ≤ 2 ^ 32 := by
    obtain ⟨hPos, hLe⟩ := hWidth
    interval_cases width <;> decide
  unfold InRange at hRange
  exact ⟨rfl, hStop, by omega, by omega⟩

namespace RawOperand

variable (hCode : s.bytes.size < 2 ^ 32)

include hCode

/-- The target of a branch may be in front of the code or behind it. It is a word all the same. -/
theorem follows_target {width : Nat} (hWidth : 0 < width ∧ width ≤ 4) :
    Follows (do
        let displacement ← int width
        let here ← signedPosition
        return RawOperand.target (← compute (fitSigned 64 (here + displacement))))
      (do
        let displacement ← Scan.int width
        return RawOperand.target ((← Scan.position) + displacement)) s start := by
  refine (follows_int width).bind fun displacement stop hInt => ?_
  obtain ⟨-, hStop, hLow, hHigh⟩ := near_of_int hWidth hInt
  exact .of_ok (signedPosition_eq (by omega))
    (.compute_ok (fitSigned_of_near (by omega) (by omega)) rfl)

/-- The targets of a jump table count from its end, which is worked out before they are read. -/
theorem follows_switch : Follows (read .switch) (scan .switch) s start := by
  refine (follows_uint 4).bind fun count middle hCount =>
    follows_remaining.bind fun left _ hLeft => ?_
  cases hLeft
  refine .compute_ok (divide_of_pos (by decide)) ?_
  split
  · exact follows_fault _
  rename_i hRoom
  have hMiddle := (Scan.uint_eq_ok hCount).2.1
  have hMoves : Scan.Moves (Scan.int 4) 4 fun n => -(2 ^ 32 : Int) ≤ n ∧ n < 2 ^ 32 :=
    fun _ _ _ _ hInt => by
      obtain ⟨rfl, -, hNear⟩ := near_of_int (by decide) hInt
      exact ⟨rfl, hNear⟩
  refine (Follows.times (fun _ => follows_int 4) count).bind fun displacements stop hTimes => ?_
  obtain ⟨rfl, hNear⟩ := hMoves.times count _ _ _ _ hTimes
  have hStop : middle + count * 4 ≤ s.bytes.size := by omega
  refine .of_ok (signedPosition_eq (by omega)) (.compute_ok (mapM_of_ok fun d hMem => ?_) rfl)
  have := hNear d hMem
  exact fitSigned_of_near (by omega) (by omega)

theorem follows_read (kind : OperandKind) : Follows (read kind) (scan kind) s start := by
  cases kind with
  | none => exact follows_pure _
  | int8 | int32 | int64 => exact (follows_int _).bind fun _ _ _ => follows_pure _
  | uint8 | uint16 | float32 | float64 => exact (follows_uint _).bind fun _ _ _ => follows_pure _
  | token | method | literal => exact follows_token.bind fun _ _ _ => follows_pure _
  | shortBranch | branch => exact follows_target hCode (by decide)
  | switch => exact follows_switch hCode

end RawOperand

theorem Opcode.follows_readValue : Follows readValue scanValue s start := by
  refine (follows_uint 1).bind fun first _ _ => ?_
  split
  · exact (follows_uint 1).bind fun _ _ _ => follows_pure _
  · exact follows_pure _

namespace RawInstruction

variable (hCode : s.bytes.size < 2 ^ 32)

include hCode

/-- An instruction has an offset and a size in 32 bits, because the code ends within these. -/
theorem follows_read : Follows read scan s start := by
  refine follows_position.bind fun here _ hHere => ?_
  cases hHere
  refine Opcode.follows_readValue.bind fun value middle hValue => ?_
  cases hOpcode : Opcode.ofValue? value with
  | none => exact follows_fault _
  | some op =>
      obtain rfl := Opcode.ofValue?_eq_some.1 hOpcode
      obtain ⟨hHolds, rfl⟩ := Opcode.scanValue_eq_ok.1 hValue
      have hMiddle := hHolds.1
      rw [Opcode.length_encode] at hMiddle
      refine (RawOperand.follows_read hCode _).bind fun operand stop hOperand => ?_
      obtain ⟨bs, hBytes, rfl, -⟩ := (RawOperand.reads _ _ _ _ _ hMiddle).1 hOperand
      have hStop := hBytes.1
      refine follows_position.bind fun last _ hLast => ?_
      cases hLast
      exact .compute_ok (sub_of_le (by omega)) (.compute_ok (fit_of_lt (by omega))
        (.compute_ok (fit_of_lt (by omega)) (follows_pure _)))

/-- A handle is the number of instructions so far. Each takes a byte at least, so that it stays
below the position. -/
theorem readNext_eq {found : Array RawInstruction} (hFound : found.size ≤ start) :
    readNext found s start = if start < s.bytes.size then
      match scan s.bytes start with
      | .ok raw next => .ok ((found.push raw, true), next)
      | .error fault _ => fail fault
    else .ok ((found, false), start) := by
  have hRead : read s start = ofScan (scan s.bytes start) := follows_read hCode
  change (if start < s.bytes.size then (do
      let raw ← read
      let _ ← compute (fit 32 found.size)
      return (found.push raw, true) : Reading _) else return (found, false)) s start = _
  split
  · cases hScan : scan s.bytes start with
    | error fault stop => exact bind_of_fail (hRead.trans (congrArg ofScan hScan))
    | ok raw next =>
        rw [bind_of_ok (hRead.trans (congrArg ofScan hScan)),
          bind_of_ok (compute_of_ok (fit_of_lt (show found.size < 2 ^ 32 by omega)))]
        rfl
  · rfl

/-- By induction along the code, with as many instructions found as there are rounds. -/
theorem rounds_readNext {found : Array RawInstruction} (hFound : found.size ≤ start) :
    (rounds readNext found).evalAt s start = match scanAll s.bytes start found with
      | (_, some (fault, _)) => fail fault
      | (raws, none) => .ok raws := by
  fun_induction scanAll s.bytes start found with
  | case1 start found hMore raw next hScan hNext ih =>
      rw [evalAt, rounds, readNext_eq hCode hFound, if_pos hMore, hScan]
      dsimp only
      rw [if_pos ⟨hNext, hMore⟩]
      exact ih (by rw [Array.size_push]; omega)
  | case2 start found hMore fault stop hScan =>
      rw [evalAt, rounds, readNext_eq hCode hFound, if_pos hMore, hScan]
      rfl
  | case3 start found hEnd =>
      rw [evalAt, rounds, readNext_eq hCode hFound, if_neg hEnd]
      rfl

end RawInstruction

/-- Code that a header can describe is taken apart in words without a trap, and comes out as it does
otherwise. -/
theorem Decoded.read_eq {code : Slice} (hCode : code.bytes.size < 2 ^ 32) (resolver : Resolver) :
    read code resolver = ofChecked (ofCode code.bytes resolver) := by
  have hFound : (#[] : Array RawInstruction).size ≤ 0 := Nat.le_refl _
  unfold read ofCode
  rw [RawInstruction.rounds_readNext hCode hFound]
  cases RawInstruction.scanAll code.bytes 0 #[] with
  | mk raws fault =>
      cases fault with
      | some fault => rfl
      | none =>
          dsimp only
          rw [ok_bind, fit_of_lt hCode, ok_bind]
          exact bind_ofChecked fun _ _ => rfl

end IlSplice
