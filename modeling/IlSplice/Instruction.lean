import IlSplice.Token
import IlSplice.Opcode
import IlSplice.Text.Quoted
import IlSplice.Decimal.Notation

/-!
Instructions with symbolic operands.

Branch targets are handles of other instructions, not offsets, so that they survive edits of the
code. Methods and string literals carry their name or text beside their token. Float operands are
kept as bits.
-/

namespace IlSplice

/-- The name of an instruction within one method; it never changes. It is the position at which the
instruction was put, and is not cut to 32 bits: a listing has the same handles as one that cuts
them, as long as fewer than 2^32 instructions were put into it. -/
abbrev Handle := Nat

/-- The text of a handle. -/
def Handle.text (h : Handle) : String := s!"InstrId({h})"

/-- A called or otherwise referenced method. -/
structure MethodRef where
  token : Token
  name : String
  deriving DecidableEq, Repr

/-- A string literal; without a token it is not yet part of the heap of literals. -/
structure Literal where
  token : Option Token
  text : String
  deriving DecidableEq, Repr

/-- The operand of an instruction. -/
inductive Operand where
  | none
  | int8 (value : Int8)
  | uint8 (value : UInt8)
  | uint16 (value : UInt16)
  | int32 (value : Int32)
  | int64 (value : Int64)
  | float32 (bits : UInt32)
  | float64 (bits : UInt64)
  | target (handle : Handle)
  | switch (handles : List Handle)
  | method (callee : MethodRef)
  | literal (text : Literal)
  | token (value : Token)
  deriving DecidableEq, Repr

/-- An opcode with an operand, which need not be of the opcode's kind. -/
structure Instruction where
  opcode : Opcode
  operand : Operand
  deriving DecidableEq, Repr

/-- A method reference spelt out. -/
def MethodRef.describe (m : MethodRef) : String :=
  "MethodRef \x7b token: " ++ m.token.describe ++ ", name: " ++ Text.quoted m.name ++ " \x7d"

/-- A literal spelt out. -/
def Literal.describe (l : Literal) : String :=
  let token := match l.token with
    | some token => "Some(" ++ token.describe ++ ")"
    | none => "None"
  "UserString \x7b token: " ++ token ++ ", value: " ++ Text.quoted l.text ++ " \x7d"

namespace Operand

/-- The operand spelt out, with its kind. -/
def describe : Operand → String
  | .none => "None"
  | .int8 value => s!"Int8({value.toInt})"
  | .uint8 value => s!"UInt8({value.toNat})"
  | .uint16 value => s!"UInt16({value.toNat})"
  | .int32 value => s!"Int32({value.toInt})"
  | .int64 value => s!"Int64({value.toInt})"
  | .float32 bits => s!"Float32({Decimal.Style.described.text Decimal.binary32 bits.toNat})"
  | .float64 bits => s!"Float64({Decimal.Style.described.text Decimal.binary64 bits.toNat})"
  | .target handle => s!"Target({Handle.text handle})"
  | .switch handles => "Switch([" ++ ", ".intercalate (handles.map Handle.text) ++ "])"
  | .method callee => s!"Method({callee.describe})"
  | .literal text => s!"String({text.describe})"
  | .token t => s!"Token({t.describe})"

/-- The operand as listings show it, with a blank in front of it. -/
def listed : Operand → String
  | .none => ""
  | .int8 value => s!" {value.toInt}"
  | .uint8 value => s!" {value.toNat}"
  | .uint16 value => s!" {value.toNat}"
  | .int32 value => s!" {value.toInt}"
  | .int64 value => s!" {value.toInt}"
  | .float32 bits => " " ++ Decimal.Style.listing.text Decimal.binary32 bits.toNat
  | .float64 bits => " " ++ Decimal.Style.listing.text Decimal.binary64 bits.toNat
  | .target handle => " " ++ Handle.text handle
  | .switch handles => s!" ({handles.length} targets)"
  | .method callee => s!" {callee.name} [{callee.token}]"
  | .literal l => " " ++ Text.quoted l.text
  | .token t => s!" {t}"

/-- The instructions that the operand refers to. -/
def targets : Operand → List Handle
  | .target handle => [handle]
  | .switch handles => handles
  | _ => []

end Operand

namespace Instruction

/-- The instruction without operand. -/
def plain (opcode : Opcode) : Instruction := ⟨opcode, .none⟩

/-- Loads a 32-bit constant in its long form. -/
def loadInt (value : Int32) : Instruction := ⟨.ldcI4, .int32 value⟩

/-- Loads a string literal that is not yet part of the heap. -/
def loadText (text : String) : Instruction := ⟨.ldstr, .literal ⟨none, text⟩⟩

/-- The instruction as listings show it. -/
def text (i : Instruction) : String := i.opcode.mnemonic ++ i.operand.listed

/-- The method that the instruction refers to. -/
def method? (i : Instruction) : Option MethodRef :=
  match i.operand with
  | .method callee => some callee
  | _ => none

/-- A plain, not a virtual, call of a method of that name. -/
def isCallTo (i : Instruction) (name : String) : Bool :=
  i.opcode == .call && i.method?.any (·.name == name)

/-- The constant that the instruction loads, if it loads a 32-bit constant. The one-byte forms
have no operand to look at. -/
def constant? (i : Instruction) : Option Int32 :=
  match i.opcode, i.operand with
  | .ldcI4, .int32 value => some value
  | .ldcI4S, .int8 value => some value.toInt32
  | .ldcI4M1, _ => some (-1)
  | opcode, _ =>
    if Opcode.ldcI40.value ≤ opcode.value ∧ opcode.value ≤ Opcode.ldcI48.value then
      some (Int32.ofNat (opcode.value - Opcode.ldcI40.value))
    else none

/-- The instructions that this one may branch to. -/
def targets (i : Instruction) : List Handle := i.operand.targets

end Instruction

end IlSplice
