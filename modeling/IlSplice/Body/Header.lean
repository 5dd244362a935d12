import IlSplice.Bytes.Scan

/-!
Method headers.

Small methods without locals and exception clauses have a tiny header of one byte, which implies
a stack of eight slots. All others have a fat header of twelve bytes.
-/

namespace IlSplice

/-- The header of a method body. -/
structure MethodHeader where
  fat : Bool
  /-- The size of the header itself. -/
  size : Nat
  codeSize : Nat
  maxStack : UInt16
  /-- The signature of the locals, null for a method without locals. -/
  locals : Token
  /-- Whether the locals start out as zero. -/
  initLocals : Bool
  /-- Whether data sections follow the code. -/
  moreSections : Bool
  deriving DecidableEq, Repr

namespace MethodHeader

/-- The stack that a tiny header stands for. -/
def tinyMaxStack : UInt16 := 8

/-- The largest code that a tiny header can have. -/
def tinyMaxCode : Nat := 0x3F

/-- The size of a fat header. -/
def fatSize : Nat := 12

/-- Reads a tiny header, whose byte has been looked at. -/
def scanTiny (lead : Nat) : Scan MethodHeader := do
  Scan.skip 1
  return ⟨false, 1, lead / 4, tinyMaxStack, .null, false, false⟩

/-- Reads a fat header: flags and the header's size in words, the stack, the code size and the
locals. -/
def scanFat : Scan MethodHeader := do
  let flags ← Scan.uint 2
  let maxStack ← Scan.u16
  let codeSize ← Scan.uint 4
  let locals ← Scan.token
  let size := (flags >>> 12) * 4
  if size = fatSize then
    return ⟨true, size, codeSize, maxStack, locals, flags.testBit 4, flags.testBit 3⟩
  else throw (.fatHeaderSize size)

/-- Reads a header and checks that the code behind it is there. -/
def scan : Scan MethodHeader := fun data start =>
  match data[start]? with
  | none => .error .emptyBody start
  | some lead =>
    let format := lead.toNat % 4
    let header : Scan MethodHeader :=
      if format = 2 then scanTiny lead.toNat
      else if format = 3 then scanFat
      else throw (.headerFormat lead.toNat)
    match header data start with
    | .error fault stop => .error fault stop
    | .ok h stop => if stop + h.codeSize ≤ data.size then .ok h stop else .error .outOfBounds stop

/-- The header for code of the given size, tiny wherever a tiny one says the same. -/
def encode (codeSize : Nat) (maxStack : UInt16) (locals : Token) (initLocals moreSections : Bool) :
    Except Fault (List UInt8) :=
  if codeSize ≤ tinyMaxCode ∧ maxStack ≤ tinyMaxStack ∧ locals = .null ∧ !initLocals ∧ !moreSections
  then .ok [UInt8.ofNat (codeSize * 4 + 2)]
  else if codeSize < 0x100000000 then
    let flags := 3 + 8 * moreSections.toNat + 16 * initLocals.toNat + (fatSize / 4) <<< 12
    .ok (leBytes 2 flags ++ leBytes 2 maxStack.toNat ++ leBytes 4 codeSize
      ++ leBytes 4 locals.value.toNat)
  else .error (.codeTooLarge codeSize)

end MethodHeader

end IlSplice
