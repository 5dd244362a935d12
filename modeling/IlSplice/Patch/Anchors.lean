import IlSplice.Listing

/-!
The two instructions that a patch refers to.

Both are found by what the code calls, and only if that leaves no choice.
-/

namespace IlSplice.Patch

/-- The places at which code is changed. -/
structure Anchors where
  /-- The call that entries are stored in front of. -/
  injection : Handle
  /-- The constant that is the size of the array. -/
  size : Handle
  deriving DecidableEq, Repr

namespace Anchors

/-- A call of a method, in words. -/
def callText (member : String) : String := s!"'call {member}'"

/-- The calls of a method, in layout order. -/
def calls (listing : Listing) (member : String) : List Handle :=
  (listing.entries.filter fun (_, i) => i.isCallTo member).map (·.1)

/-- The only call of a method. -/
def uniqueCall (listing : Listing) (member : String) : Except Fault Handle :=
  match calls listing member with
  | [handle] => .ok handle
  | [] => .error (.anchorNotFound (callText member))
  | several => .error (.anchorAmbiguous (callText member) several.length)

/-- Finds both anchors. The size is what stands behind the call that goes before it. -/
def locate (listing : Listing) (injectionMember sizeMember : String) : Except Fault Anchors := do
  let injection ← uniqueCall listing injectionMember
  let sizeCall ← uniqueCall listing sizeMember
  match listing.next? sizeCall with
  | some size => return ⟨injection, size⟩
  | none => .error (.anchorNotFound s!"instruction after {callText sizeMember}")

end Anchors

end IlSplice.Patch
