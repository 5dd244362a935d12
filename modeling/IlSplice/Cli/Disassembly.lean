import IlSplice.Patch
import IlSplice.Text.Grid
import IlSplice.Text.Json

/-!
The code of a method as it is shown to the user, with the places that a patch would change.
-/

namespace IlSplice.Cli

/-- A line of the listing. -/
structure Line where
  index : Nat
  handle : Handle
  instruction : Instruction
  /-- What a patch would do here. -/
  mark : Option String

/-- A listing of a method. -/
structure Disassembly where
  /-- The method with its type and token. -/
  title : String
  token : Token
  maxStack : UInt16
  lines : List Line
  /-- Why a patch would not find its anchors. -/
  anchorFault : Option Fault

/-- The reason that there is nothing to list. -/
inductive LookupFault where
  | noType (name : String)
  | noMethod (typeName name : String)
  deriving DecidableEq, Repr

/-- The reason in words. -/
def LookupFault.message : LookupFault → String
  | .noType name => s!"no type named '{name}' found"
  | .noMethod typeName name => s!"no method '{typeName}::{name}' with a body found"

namespace Disassembly

/-- What a patch would do at an instruction. -/
def mark (anchors : Except Fault Patch.Anchors) (h : Handle) : Option String :=
  match anchors with
  | .error _ => none
  | .ok anchors =>
    if anchors.injection = h then some "injection"
    else if anchors.size = h then some "array size"
    else none

/-- Lists a body. -/
def ofBody (t : TypeDef) (method : MethodDef) (body : MethodBody) : Disassembly :=
  let anchors := Patch.Anchors.locate body.listing Patch.Config.standard.injectionMember
    Patch.Config.standard.sizeMember
  { title := s!"{t.fullName}::{method.name} ({method.token})"
    token := method.token
    maxStack := body.maxStack
    lines := body.listing.entries.zipIdx.map fun ((h, i), index) => ⟨index, h, i, mark anchors h⟩
    anchorFault := match anchors with
      | .error fault => some fault
      | .ok _ => none }

/-- Lists the first method of a name that has a body, in the first type of a name. -/
def ofModule (m : Module) (typeName methodName : String) : Except LookupFault Disassembly :=
  match m.types.find? (·.isNamed typeName) with
  | none => .error (.noType typeName)
  | some t =>
    let found := (t.methods.filter (·.name = methodName)).findSome? fun method =>
      method.body.map (method, ·)
    match found with
    | none => .error (.noMethod typeName methodName)
    | some (method, body) => .ok (ofBody t method body)

/-- The listing as a table. -/
def text (d : Disassembly) : List String :=
  let rows := d.lines.map fun line =>
    [toString line.index, line.instruction.text, line.mark.getD ""]
  s!"{d.title} maxstack {d.maxStack.toNat}"
    :: Text.grid [.right, .left, .left] (["#", "Instruction", "Anchor"] :: rows)

/-- A member that may be missing. -/
def optional (name : String) (value : Option String) : List (String × Json) :=
  (value.map fun text => (name, Json.text text)).toList

/-- The listing as a value. -/
def json (d : Disassembly) : Json :=
  let line := fun (line : Line) =>
    Json.object ([("index", .number line.index), ("instruction", .text line.instruction.text)]
      ++ optional "anchor" line.mark)
  .object ([("method", .text d.title), ("max_stack", .number d.maxStack.toNat),
      ("instructions", .array (d.lines.map line))]
    ++ optional "anchor_error" (d.anchorFault.map Fault.describe))

end Disassembly

end IlSplice.Cli
