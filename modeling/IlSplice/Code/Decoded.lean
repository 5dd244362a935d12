import IlSplice.Bytes.Scan
import IlSplice.Listing

/-!
Reading the code of a method.

Code is first split into instructions whose branch targets are offsets. Then each offset is
replaced by the instruction that starts there, and each method and literal token by what it
refers to. Code is accepted only if every target is the start of an instruction.
-/

namespace IlSplice

/-- An operand whose references are not yet resolved. -/
inductive RawOperand where
  | plain (operand : Operand)
  /-- A branch target, as an offset into the code. -/
  | target (offset : Int)
  /-- The targets of a jump table, as offsets into the code. -/
  | switch (offsets : List Int)
  | method (token : Token)
  | literal (token : Token)
  deriving DecidableEq, Repr

/-- An instruction as it stands in the code. -/
structure RawInstruction where
  offset : Nat
  size : Nat
  opcode : Opcode
  operand : RawOperand
  deriving DecidableEq, Repr

/-- Reads an operand. Displacements count from the end of the whole instruction. -/
def RawOperand.scan : OperandKind → Scan RawOperand
  | .none => return .plain .none
  | .int8 => return .plain (.int8 (Int8.ofInt (← Scan.int 1)))
  | .uint8 => return .plain (.uint8 (UInt8.ofNat (← Scan.uint 1)))
  | .uint16 => return .plain (.uint16 (UInt16.ofNat (← Scan.uint 2)))
  | .int32 => return .plain (.int32 (Int32.ofInt (← Scan.int 4)))
  | .int64 => return .plain (.int64 (Int64.ofInt (← Scan.int 8)))
  | .float32 => return .plain (.float32 (UInt32.ofNat (← Scan.uint 4)))
  | .float64 => return .plain (.float64 (UInt64.ofNat (← Scan.uint 8)))
  | .token => return .plain (.token (← Scan.token))
  | .method => return .method (← Scan.token)
  | .literal => return .literal (← Scan.token)
  | .shortBranch => do
    let displacement ← Scan.int 1
    return .target ((← Scan.position) + displacement)
  | .branch => do
    let displacement ← Scan.int 4
    return .target ((← Scan.position) + displacement)
  | .switch => do
    let count ← Scan.uint 4
    if (← Scan.remaining) / 4 < count then throw .outOfBounds
    else
      let displacements ← Scan.times count (Scan.int 4)
      let stop ← Scan.position
      return .switch (displacements.map ((stop : Int) + ·))

/-- Reads the value of an opcode, which takes a second byte behind the escape byte. -/
def Opcode.scanValue : Scan Nat := do
  let first ← Scan.uint 1
  if first = Opcode.escape then return first * 256 + (← Scan.uint 1) else return first

/-- Reads one instruction. -/
def RawInstruction.scan : Scan RawInstruction := do
  let start ← Scan.position
  let value ← Opcode.scanValue
  match Opcode.ofValue? value with
  | none => throw (.badOpcode value)
  | some opcode =>
    let operand ← RawOperand.scan opcode.operand
    return ⟨start, (← Scan.position) - start, opcode, operand⟩

theorem RawOperand.forward_scan (kind : OperandKind) : Scan.Forward (RawOperand.scan kind) := by
  have value {α : Type} (width : Nat) (f : Nat → α) :
      Scan.Forward (Scan.uint width >>= fun n => pure (f n)) :=
    (Scan.forward_uint width).bind fun _ => Scan.forward_pure _
  cases kind with
  | none => exact Scan.forward_pure _
  | int8 | int32 | int64 => exact (Scan.forward_int _).bind fun _ => Scan.forward_pure _
  | uint8 | uint16 | float32 | float64 => exact value _ _
  | token | method | literal => exact Scan.forward_token.bind fun _ => Scan.forward_pure _
  | shortBranch | branch =>
    exact (Scan.forward_int _).bind fun _ => Scan.forward_position.bind fun _ => Scan.forward_pure _
  | switch =>
    refine (Scan.forward_uint 4).bind fun count => Scan.forward_remaining.bind fun _ => ?_
    split
    · exact Scan.forward_throw _
    · exact (Scan.forward_times (Scan.forward_int 4) count).bind fun _ =>
        Scan.forward_position.bind fun _ => Scan.forward_pure _

/-- Reading an opcode moves on, which is why reading all instructions comes to an end. -/
theorem Opcode.lt_of_scanValue {code : Bytes} {start value stop : Nat}
    (h : Opcode.scanValue code start = .ok value stop) : start < stop := by
  obtain ⟨first, middle, h₁, h₂⟩ := Scan.bind_eq_ok h
  have := (Scan.uint_eq_ok h₁).1
  have rest : Scan.Forward
      (if first = Opcode.escape then (do return first * 256 + (← Scan.uint 1))
        else pure first) := by
    split
    · exact (Scan.forward_uint 1).bind fun _ => Scan.forward_pure _
    · exact Scan.forward_pure _
  have := rest.le h₂
  omega

/-- Every instruction takes at least one byte. -/
theorem RawInstruction.lt_of_scan {code : Bytes} {start stop : Nat} {raw : RawInstruction}
    (h : RawInstruction.scan code start = .ok raw stop) : start < stop := by
  obtain ⟨_, _, h₁, h₂⟩ := Scan.bind_eq_ok h
  cases h₁
  obtain ⟨value, middle, h₃, h₄⟩ := Scan.bind_eq_ok h₂
  have := Opcode.lt_of_scanValue h₃
  generalize Opcode.ofValue? value = opcode? at h₄
  cases opcode? with
  | none => cases h₄
  | some opcode =>
    have := ((RawOperand.forward_scan _).bind fun _ => Scan.forward_position.bind fun _ =>
      Scan.forward_pure _).le h₄
    omega

/-- Reads instructions up to the end of the code. Where one cannot be read, also tells why, and
at which position reading stopped. -/
def RawInstruction.scanAll (code : Bytes) (position : Nat) (found : Array RawInstruction) :
    Array RawInstruction × Option (Fault × Nat) :=
  if position < code.size then
    match h : RawInstruction.scan code position with
    | .ok raw next =>
      have := RawInstruction.lt_of_scan h
      scanAll code next (found.push raw)
    | .error fault stop => (found, some (fault, stop))
  else (found, none)
termination_by code.size - position

/-- Looks up what tokens in code refer to. -/
structure Resolver where
  /-- The name of a method. -/
  method : Token → Except Fault String
  /-- The text of a string literal. -/
  literal : Token → Except Fault String

/-- The resolver that knows the given tokens only. -/
def Resolver.ofLists (methods literals : List (Token × String)) : Resolver where
  method token := match methods.lookup token with
    | some name => .ok name
    | none => .error (.unknownMethod token)
  literal token := match literals.lookup token with
    | some text => .ok text
    | none => .error (.unknownLiteral token)

/-- The instruction that starts at each offset of the code. -/
abbrev Boundaries := Array (Option Handle)

/-- The boundaries of the given instructions, the first of which has the handle `first`. -/
def Boundaries.mark (boundaries : Boundaries) (first : Handle) : List RawInstruction → Boundaries
  | [] => boundaries
  | raw :: rest => mark (boundaries.setIfInBounds raw.offset (some first)) (first + 1) rest

/-- The instruction that a branch to `offset` leads to. -/
def Boundaries.target (boundaries : Boundaries) (offset : Int) : Except Fault Handle :=
  match if 0 ≤ offset then boundaries[offset.toNat]?.join else none with
  | some handle => .ok handle
  | none => .error (.targetNotBoundary offset)

/-- Replaces offsets by instructions and adds names and texts to tokens. -/
def RawOperand.resolve (boundaries : Boundaries) (resolver : Resolver) :
    RawOperand → Except Fault Operand
  | .plain operand => .ok operand
  | .target offset => return .target (← boundaries.target offset)
  | .switch offsets => return .switch (← offsets.mapM boundaries.target)
  | .method token => return .method ⟨token, ← resolver.method token⟩
  | .literal token => return .literal ⟨some token, ← resolver.literal token⟩

/-- The code of a method, taken apart. -/
structure Decoded where
  listing : Listing
  boundaries : Boundaries

namespace Decoded

/-- The instruction at an offset, or nothing for the end of the code. -/
def instructionAt (d : Decoded) (offset : Nat) : Except Fault (Option Handle) :=
  if offset = d.boundaries.size then .ok none
  else match d.boundaries[offset]?.join with
    | some handle => .ok (some handle)
    | none => .error (.notBoundary offset)

/-- Takes code apart. -/
def ofCode (code : Bytes) (resolver : Resolver) : Except Fault Decoded :=
  match RawInstruction.scanAll code 0 #[] with
  | (_, some (fault, _)) => .error fault
  | (raws, none) => do
    let boundaries := Boundaries.mark (Array.replicate code.size none) 0 raws.toList
    let instructions ← raws.toList.mapM fun raw =>
      return ⟨raw.opcode, ← raw.operand.resolve boundaries resolver⟩
    return ⟨.ofArray instructions.toArray, boundaries⟩

end Decoded

end IlSplice
