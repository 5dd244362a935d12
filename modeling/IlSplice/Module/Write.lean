import IlSplice.Metadata.Rebuilt
import IlSplice.Module

/-!
Writing a module.

The image of the module is kept as it is, and one section is added to it. The section holds the
bodies of all modified methods and, behind them, the whole metadata, in which these methods have
their new addresses. The CLI header is made to lead there.
-/

namespace IlSplice.Module

/-- Puts bodies behind the contents of a section at the address `base`, and notes where they are.
Each starts at a multiple of four bytes. -/
def placeBodies (base : Nat) : List MethodDef → Bytes → List Redirect →
    Edit LiteralPool (Bytes × List Redirect)
  | [], content, redirects => return (content, redirects.reverse)
  | method :: rest, content, redirects =>
    match method.body with
    | none => placeBodies base rest content redirects
    | some body => do
      let content := content.padTo 4
      let rva ← Edit.check fun _ => word (base + content.size)
      let encoded ← body.encode LiteralPool.intern
      placeBodies base rest (content ++ encoded) (⟨method.token.row, rva⟩ :: redirects)

/-- Makes the CLI header lead to other metadata. A strong name signature no longer matches, so its
flag is cleared. -/
def redirectHeader (md : Metadata) (out : Bytes) (rva size : UInt32) : Except Fault Bytes := do
  let out ← out.overwrite (md.cliOffset + CliHeader.metadataRvaOffset) (leBytes 4 rva.toNat)
  let out ← out.overwrite (md.cliOffset + CliHeader.metadataSizeOffset) (leBytes 4 size.toNat)
  let flags := md.cli.flags.toNat
  if flags.testBit CliHeader.strongNameSigned then
    out.overwrite (md.cliOffset + CliHeader.flagsOffset)
      (leBytes 4 (flags - 1 <<< CliHeader.strongNameSigned))
  else return out

/-- The literals of an image, to which more can be added. -/
def literalPool (md : Metadata) : Except Fault LiteralPool := do
  LiteralPool.ofBytes ((← md.stream? Literals.streamName).getD #[0])

/-- The file of an image with the bodies of some methods replaced. -/
def replaceBodies (image : Image) (methods : List MethodDef) : Except Fault Bytes := do
  let md ← Metadata.locate image
  let placement ← Placement.of image
  let pool ← literalPool md
  match (placeBodies placement.rva methods #[] []).runOn pool with
  | (.error fault, _) => .error fault
  | (.ok (bodies, redirects), pool) =>
    let bodies := bodies.padTo 4
    let rva ← word (placement.rva + bodies.size)
    let metadata ← md.rebuild pool redirects
    let size ← word metadata.size
    let out ← placement.append image (bodies ++ metadata)
    redirectHeader md out rva size

/-- The file of a module. Without modified methods it is the image that the module was loaded
from. -/
def toBytes (m : Module) : Except Fault Bytes :=
  match m.image with
  | none => .error .unsupported
  | some image =>
    if m.modifiedMethods.isEmpty then .ok image.data else replaceBodies image m.modifiedMethods

end IlSplice.Module
