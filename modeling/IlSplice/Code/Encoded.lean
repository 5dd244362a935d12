import IlSplice.Bytes
import IlSplice.Listing

/-!
Writing the code of a method.

A short branch whose target is out of the reach of one byte takes its long form. That moves
other instructions apart, so the layout is computed again until every short branch that is left
reaches its target. A round only ever adds to the long branches, which is why the rounds end.
-/

namespace IlSplice

/-- The short branches that take their long form, by handle. -/
abbrev LongForms := Array Bool

/-- The bytes of an operand. -/
def Operand.encodedSize (opcode : Opcode) (operand : Operand) : Nat :=
  match opcode.operand, operand with
  | .switch, .switch handles => 4 + 4 * handles.length
  | kind, _ => kind.size?.getD 0

namespace Instruction

/-- The opcode that is written: the long form of a short branch where `long`. -/
def form (i : Instruction) (long : Bool) : Opcode :=
  if long then i.opcode.long?.getD i.opcode else i.opcode

/-- The bytes of the instruction. -/
def encodedSize (i : Instruction) (long : Bool) : Nat :=
  (i.form long).size + i.operand.encodedSize (i.form long)

/-- The target of a short branch. -/
def shortTarget? (i : Instruction) : Option Handle :=
  match i.opcode.operand, i.operand with
  | .shortBranch, .target handle => some handle
  | _, _ => none

end Instruction

/-- The offset of every instruction, by handle, and the size of the code. -/
structure Layout where
  starts : Array Nat
  size : Nat

namespace Layout

/-- Lays instructions out one behind the other, starting at the end of `l`. -/
def extend (l : Layout) (long : LongForms) :
    List (Handle × Instruction) → Except Fault Layout
  | [] => .ok l
  | (h, i) :: rest =>
    let stop := l.size + i.encodedSize (long.getD h false)
    if stop < 0x100000000 then extend ⟨l.starts.setIfInBounds h l.size, stop⟩ long rest
    else .error .codeOverflow

/-- The layout of a whole listing. -/
def ofListing (listing : Listing) (long : LongForms) : Except Fault Layout :=
  extend ⟨Array.replicate listing.slots.size 0, 0⟩ long listing.entries

/-- The way from the offset `next` to an instruction. -/
def displacement (l : Layout) (target : Handle) (next : Nat) : Except Fault Int :=
  match l.starts[target]? with
  | some start => .ok ((start : Int) - next)
  | none => .error (.foreignTarget target)

/-- The offset behind an instruction. -/
def stop (l : Layout) (long : LongForms) (h : Handle) (i : Instruction) : Nat :=
  l.starts.getD h 0 + i.encodedSize (long.getD h false)

end Layout

/-- A number that fits a signed 8-bit displacement. -/
def fitsByte (n : Int) : Bool := -128 ≤ n && n ≤ 127

/-- A number that fits a signed 32-bit displacement. -/
def fitsWord (n : Int) : Bool := -0x80000000 ≤ n && n < 0x80000000

namespace LongForms

/-- All short branches in their short form. -/
def none (listing : Listing) : LongForms := Array.replicate listing.slots.size false

/-- The short branches that do not reach their targets, in front of those already `found`. -/
def outOfReach (long : LongForms) (l : Layout) :
    List (Handle × Instruction) → List Handle → Except Fault (List Handle)
  | [], found => .ok found
  | (h, i) :: rest, found =>
    match i.shortTarget?, long[h]? with
    | some target, some false =>
      match l.displacement target (l.stop long h i) with
      | .error fault => .error fault
      | .ok n => outOfReach long l rest (if fitsByte n then found else h :: found)
    | _, _ => outOfReach long l rest found

/-- Gives more short branches their long form. -/
def add (long : LongForms) : List Handle → LongForms
  | [] => long
  | h :: rest => add (long.setIfInBounds h true) rest

/-- Branches are only ever made long, never short again. -/
theorem count_add_le (long : LongForms) (handles : List Handle) :
    (long.add handles).count false ≤ long.count false := by
  induction handles generalizing long with
  | nil => exact Nat.le_refl _
  | cons h rest ih =>
    refine Nat.le_trans (ih _) ?_
    rw [Array.setIfInBounds_def]
    split
    · rw [Array.count_set]
      simp
    · exact Nat.le_refl _

/-- A round that finds a short branch out of reach leaves fewer short branches, which is why the
rounds come to an end. -/
theorem count_add_lt {long : LongForms} {h : Handle} (rest : List Handle)
    (isShort : long[h]? = some false) :
    (long.add (h :: rest)).count false < long.count false := by
  refine Nat.lt_of_le_of_lt (count_add_le _ rest) ?_
  obtain ⟨bound, eq⟩ := Array.getElem?_eq_some_iff.1 isShort
  have positive : 0 < long.count false := Array.count_pos_iff.2 (eq ▸ Array.getElem_mem bound)
  rw [Array.setIfInBounds_def, dif_pos bound, Array.count_set]
  simp only [eq, beq_self_eq_true, if_true]
  exact Nat.sub_lt positive Nat.one_pos

theorem short_of_outOfReach {long : LongForms} {l : Layout}
    {entries : List (Handle × Instruction)} {found result : List Handle}
    (h : outOfReach long l entries found = .ok result)
    (hf : ∀ x ∈ found, long[x]? = some false) : ∀ x ∈ result, long[x]? = some false := by
  fun_induction outOfReach long l entries found with
  | case1 =>
    cases h
    exact hf
  | case2 => cases h
  | case3 handle i rest found target isShort isTarget n hn ih =>
    refine ih h fun x hx => ?_
    split at hx
    · exact hf x hx
    · rcases List.mem_cons.1 hx with rfl | hx
      · assumption
      · exact hf x hx
  | case4 handle i rest found no ih => exact ih h hf

/-- Repeats the layout until every short branch that is left reaches its target. -/
def settle (listing : Listing) (long : LongForms) : Except Fault (Layout × LongForms) :=
  match Layout.ofListing listing long with
  | .error fault => .error fault
  | .ok l =>
    match h : long.outOfReach l listing.entries [] with
    | .error fault => .error fault
    | .ok [] => .ok (l, long)
    | .ok (first :: more) =>
      have := count_add_lt more (short_of_outOfReach h (by simp) first (by simp))
      settle listing (long.add (first :: more))
termination_by long.count false

end LongForms

/-- Turns the text of a literal into its token, and keeps what it needs to know in `σ`. -/
abbrev Interner (σ : Type) := String → Edit σ Token

/-- A displacement in a field of `width` bytes, or the fault that it does not fit. -/
def encodeDisplacement (width : Nat) (fits : Int → Bool) (fault : Fault) (n : Int) :
    Except Fault (List UInt8) :=
  if fits n then .ok (leSigned width n) else .error fault

/-- The bytes of an operand. `next` is the offset behind the instruction. -/
def Operand.encode (operand : Operand) (opcode : Opcode) (l : Layout) (h : Handle) (next : Nat)
    (intern : Interner σ) : Edit σ (List UInt8) :=
  match opcode.operand, operand with
  | .none, .none => return []
  | .int8, .int8 value => return leSigned 1 value.toInt
  | .uint8, .uint8 value => return leBytes 1 value.toNat
  | .uint16, .uint16 value => return leBytes 2 value.toNat
  | .int32, .int32 value => return leSigned 4 value.toInt
  | .int64, .int64 value => return leSigned 8 value.toInt
  | .float32, .float32 bits => return leBytes 4 bits.toNat
  | .float64, .float64 bits => return leBytes 8 bits.toNat
  | .token, .token t => return leBytes 4 t.value.toNat
  | .method, .method callee => return leBytes 4 callee.token.value.toNat
  | .literal, .literal ⟨some t, _⟩ => return leBytes 4 t.value.toNat
  | .literal, .literal ⟨Option.none, text⟩ => return leBytes 4 (← intern text).value.toNat
  | .shortBranch, .target goal => Edit.check fun _ => do
    encodeDisplacement 1 fitsByte (.shortBranchRange h) (← l.displacement goal next)
  | .branch, .target goal => Edit.check fun _ => do
    encodeDisplacement 4 fitsWord (.branchRange h) (← l.displacement goal next)
  | .switch, .switch cases =>
    if cases.length < 0x100000000 then Edit.check fun _ => do
      let displacements ← cases.mapM fun goal => do
        encodeDisplacement 4 fitsWord (.switchRange h) (← l.displacement goal next)
      return leBytes 4 cases.length ++ displacements.flatten
    else throw (.switchTooLong h)
  | _, operand => throw (.operandMismatch operand opcode)

/-- The code of a method, put together. -/
structure Encoded where
  code : Bytes
  /-- The number of short branches that took their long form. -/
  widened : Nat
  /-- The offset of every instruction, by handle. -/
  starts : Array Nat

namespace Encoded

/-- The offset of an instruction, or of the end of the code. -/
def offsetOf (e : Encoded) : Option Handle → Except Fault Nat
  | none => .ok e.code.size
  | some h =>
    match e.starts[h]? with
    | some start => .ok start
    | none => .error (.noOffset h)

/-- Puts instructions behind the code so far. -/
def emit (l : Layout) (long : LongForms) (intern : Interner σ) :
    List (Handle × Instruction) → Bytes → Edit σ Bytes
  | [], code => return code
  | (h, i) :: rest, code => do
    let opcode := i.form (long.getD h false)
    let operand ← i.operand.encode opcode l h (l.stop long h i) intern
    emit l long intern rest (code ++ (opcode.encode ++ operand).toArray)

/-- Puts the code of a listing together. -/
def ofListing (listing : Listing) (intern : Interner σ) : Edit σ Encoded := do
  let (l, long) ← Edit.check fun _ => LongForms.settle listing (LongForms.none listing)
  let code ← emit l long intern listing.entries #[]
  return ⟨code, long.count true, l.starts⟩

end Encoded

end IlSplice
