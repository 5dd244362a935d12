import IlSplice.Body
import IlSplice.Patch.Anchors

/-!
Adding entries to an array that code builds.

The array is made one longer than there are entries, and its first element is left alone. Each
entry is stored by four instructions in front of the injection anchor, at which the array is on
the stack. Everything is checked before anything is changed.
-/

namespace IlSplice.Patch

/-- Entries to add, and where. -/
structure Plan where
  entries : List String
  anchors : Anchors
  deriving DecidableEq, Repr

/-- What a change has done. -/
structure Outcome where
  previousSize : Int32
  arraySize : Int32
  /-- The number of new instructions. -/
  inserted : Nat
  /-- The stack of the method afterwards. -/
  maxStack : UInt16
  deriving DecidableEq, Repr

/-- The stack that storing an entry takes. -/
def storeDepth : Nat := 3

/-- Stores an entry in the array on the stack. -/
def store (index : Int32) (entry : String) : List Instruction :=
  [.plain .dup, .loadInt index, .loadText entry, .plain .stelemRef]

/-- The greatest number of elements. -/
def maxSize : Nat := 0x7FFFFFFF

/-- Stores entries one behind the other, from an index on. -/
def stores (index : Nat) : List String → Except Fault (List Instruction)
  | [] => .ok []
  | entry :: rest =>
    if index ≤ maxSize then do
      return store (Int32.ofNat index) entry ++ (← stores (index + 1) rest)
    else .error (.entryTooFar index)

namespace Plan

/-- The new size of the array. -/
def arraySize (p : Plan) : Except Fault Int32 :=
  if p.entries.length + 1 ≤ maxSize then .ok (Int32.ofNat (p.entries.length + 1))
  else .error (.tooManyEntries p.entries.length)

/-- The instructions that store all entries. -/
def storeSequence (p : Plan) : Except Fault (List Instruction) := stores 1 p.entries

/-- Checks that a body can be changed, and yields the size of its array. -/
def check (p : Plan) (b : MethodBody) : Except Fault Int32 :=
  match b.listing.get? p.anchors.size with
  | none => .error .sizeAnchorMissing
  | some sizeLoad =>
    match sizeLoad.constant? with
    | none => .error (.anchorShape sizeLoad.text)
    | some previousSize =>
      if (b.listing.position? p.anchors.injection).isNone then .error .injectionAnchorMissing
      else if b.isReferenced p.anchors.injection then
        .error (.unsafeInsertion (((b.listing.get? p.anchors.injection).map (·.text)).getD ""))
      else .ok previousSize

/-- The stack that the changed body needs. -/
def maxStack (p : Plan) (b : MethodBody) : Except Fault UInt16 :=
  if p.entries.isEmpty then .ok b.maxStack
  else if b.maxStack.toNat + storeDepth < 0x10000 then
    .ok (UInt16.ofNat (b.maxStack.toNat + storeDepth))
  else .error .stackOverflow

/-- Changes the listing of a body. -/
def splice (p : Plan) (size : Int32) (sequence : List Instruction) : Edit Listing Unit := do
  let _ ← Listing.replace p.anchors.size (.loadInt size)
  if sequence.isEmpty then return ()
  else
    let _ ← Listing.insertBefore p.anchors.injection sequence

/-- Changes a body. -/
def apply (p : Plan) : Edit MethodBody Outcome := do
  let previousSize ← Edit.check p.check
  let arraySize ← Edit.check fun _ => p.arraySize
  let sequence ← Edit.check fun _ => p.storeSequence
  let maxStack ← Edit.check p.maxStack
  MethodBody.editListing (p.splice arraySize sequence)
  modify fun b => { b with maxStack := maxStack }
  return ⟨previousSize, arraySize, sequence.length, maxStack⟩

end Plan

end IlSplice.Patch
