import IlSplice.Bytes.Scan
import IlSplice.Edit

/-!
The exception clauses behind a method's code.

Clauses stand in data sections, each of which starts at a multiple of four bytes from the start
of the body. A section is small, with narrow fields, or fat, and says whether another follows.
-/

namespace IlSplice

/-- The kind of an exception clause. -/
structure ClauseFlags where
  bits : UInt16
  deriving DecidableEq, Repr

namespace ClauseFlags

/-- The clause decides by a filter whether it handles an exception. -/
def isFilter (f : ClauseFlags) : Bool := f.bits.toNat.testBit 0

/-- The clause catches exceptions of a type. -/
def isCatch (f : ClauseFlags) : Bool := f.bits == 0

/-- Flags as they stand in a section; only the filter, finally and fault bits have a meaning. -/
def ofNat (n : Nat) : ClauseFlags := ⟨UInt16.ofNat (n % 8)⟩

end ClauseFlags

/-- An exception clause with its bounds as offsets into the code. -/
structure Clause where
  flags : ClauseFlags
  tryOffset : UInt32
  tryLength : UInt32
  handlerOffset : UInt32
  handlerLength : UInt32
  /-- The type that is caught, or the offset of the filter. -/
  classOrFilter : UInt32
  deriving DecidableEq, Repr

namespace Clause

/-- The bytes of a clause in a small or a fat section. -/
def size (fat : Bool) : Nat := if fat then 24 else 12

/-- The clause has a small form. -/
def fitsSmall (c : Clause) : Bool :=
  c.tryOffset.toNat < 0x10000 && c.tryLength.toNat < 0x100
    && c.handlerOffset.toNat < 0x10000 && c.handlerLength.toNat < 0x100

/-- Reads a clause of a small or a fat section. Of the fat flags only the low half counts. -/
def scan (fat : Bool) : Scan Clause := do
  let flags := ClauseFlags.ofNat (← Scan.uint (if fat then 4 else 2))
  let tryOffset ← Scan.uint (if fat then 4 else 2)
  let tryLength ← Scan.uint (if fat then 4 else 1)
  let handlerOffset ← Scan.uint (if fat then 4 else 2)
  let handlerLength ← Scan.uint (if fat then 4 else 1)
  let classOrFilter ← Scan.u32
  return ⟨flags, UInt32.ofNat tryOffset, UInt32.ofNat tryLength, UInt32.ofNat handlerOffset,
    UInt32.ofNat handlerLength, classOrFilter⟩

/-- The bytes of a clause in a small or a fat section. -/
def encode (fat : Bool) (c : Clause) : List UInt8 :=
  leBytes (if fat then 4 else 2) c.flags.bits.toNat
    ++ leBytes (if fat then 4 else 2) c.tryOffset.toNat
    ++ leBytes (if fat then 4 else 1) c.tryLength.toNat
    ++ leBytes (if fat then 4 else 2) c.handlerOffset.toNat
    ++ leBytes (if fat then 4 else 1) c.handlerLength.toNat
    ++ leBytes 4 c.classOrFilter.toNat

/-- Reads the size of a section, which includes the four bytes in front of the clauses. -/
def scanSectionSize (fat : Bool) : Scan Nat :=
  if fat then Scan.uint 3
  else do
    let size ← Scan.uint 1
    Scan.skip 2
    return size

/-- Reads one section, and whether another follows. Sections are aligned to the `origin`, the
start of the body. Reading goes on behind the section, whatever the clauses have left of it. -/
def scanSection (origin : Nat) : Scan (List Clause × Bool) := do
  Scan.align origin 4
  let start ← Scan.position
  let flags := SectionFlags.ofByte (← Scan.u8)
  if !flags.exceptions then throw (.sectionKind flags)
  else
    let size ← scanSectionSize flags.fat
    if size < 4 then throw (.sectionTooSmall size)
    else
      let clauses ← Scan.times ((size - 4) / Clause.size flags.fat) (scan flags.fat)
      Scan.seek (start + size)
      return (clauses, flags.more)

/-- Every section takes at least four bytes and lies in the data. -/
theorem bounds_of_scanSection {origin : Nat} {data : Bytes} {start stop : Nat}
    {result : List Clause × Bool} (h : scanSection origin data start = .ok result stop) :
    start < stop ∧ stop ≤ data.size := by
  obtain ⟨_, aligned, h₁, h₂⟩ := Scan.bind_eq_ok h
  have := (Scan.forward_align origin 4).le h₁
  obtain ⟨_, _, h₃, h₄⟩ := Scan.bind_eq_ok h₂
  cases h₃
  obtain ⟨lead, _, _, h₅⟩ := Scan.bind_eq_ok h₄
  dsimp only at h₅
  split at h₅
  · cases h₅
  · obtain ⟨size, _, _, h₆⟩ := Scan.bind_eq_ok h₅
    split at h₆
    · cases h₆
    · obtain ⟨_, _, _, h₇⟩ := Scan.bind_eq_ok h₆
      obtain ⟨_, _, h₈, h₉⟩ := Scan.bind_eq_ok h₇
      cases h₉
      have := Scan.seek_eq_ok h₈
      omega

/-- Reads a chain of sections and collects their clauses. -/
def scanSections (origin : Nat) (found : List Clause) : Scan (List Clause) := fun data start =>
  match h : scanSection origin data start with
  | .error fault stop => .error fault stop
  | .ok (clauses, false) stop => .ok (found ++ clauses) stop
  | .ok (clauses, true) stop =>
    have := bounds_of_scanSection h
    scanSections origin (found ++ clauses) data stop
termination_by data start => data.size - start

/-- The clauses of the chain of sections at a position of the data. -/
def ofSections (data : Bytes) (start : Nat) : Except Fault (List Clause) :=
  Scan.evalAt (do Scan.seek start; scanSections 0 []) data 0

/-- The section that holds the given clauses, small if they all fit. -/
def encodeSection (clauses : List Clause) : Except Fault (List UInt8) :=
  let smallSize := 4 + clauses.length * Clause.size false
  let fatSize := 4 + clauses.length * Clause.size true
  if smallSize < 0x100 ∧ clauses.all fitsSmall then
    .ok (SectionFlags.toByte ⟨true, false, false, false⟩ :: UInt8.ofNat smallSize :: leBytes 2 0
      ++ clauses.flatMap (encode false))
  else if fatSize < 0x1000000 then
    .ok (SectionFlags.toByte ⟨true, false, true, false⟩ :: leBytes 3 fatSize
      ++ clauses.flatMap (encode true))
  else .error (.tooManyClauses clauses.length)

/-- Puts the section of the clauses behind the bytes. -/
def appendSection (clauses : List Clause) : Edit Bytes Unit := do
  let bytes ← Edit.check fun _ => encodeSection clauses
  modify (· ++ bytes.toArray)

end Clause

end IlSplice
