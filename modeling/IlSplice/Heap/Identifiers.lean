import IlSplice.Bytes

/-!
The heap of identifiers: names in UTF-8, each ended by a zero byte, found by their offset.
-/

namespace IlSplice

/-- A heap that starts with the empty name. -/
structure Identifiers where
  data : Bytes

namespace Identifiers

/-- The name of the heap's stream. -/
def streamName : String := "#Strings"

/-- The heap with the given contents. -/
def ofBytes (data : Bytes) : Except Fault Identifiers :=
  if data[0]? = some 0 then .ok ⟨data⟩ else .error .identifiersUnstarted

/-- The offset of the first zero byte at or behind `offset`. -/
def terminator? (data : Bytes) (offset : Nat) : Option Nat :=
  if bound : offset < data.size then
    if data[offset] = 0 then some offset else terminator? data (offset + 1)
  else none
termination_by data.size - offset

/-- The name at an offset. -/
def get (h : Identifiers) (offset : Nat) : Except Fault String :=
  if offset < h.data.size then
    match terminator? h.data offset with
    | none => .error (.badIdentifier offset)
    | some stop =>
      match Bytes.utf8? (h.data.extract offset stop) with
      | none => .error (.badIdentifier offset)
      | some name => .ok name
  else .error .outOfBounds

end Identifiers

end IlSplice
