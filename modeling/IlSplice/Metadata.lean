import IlSplice.Image
import IlSplice.Metadata.CliHeader
import IlSplice.Metadata.Root
import IlSplice.Tables.Stream

/-!
The metadata of an image: where it is, and the contents of its streams.
-/

namespace IlSplice

/-- The headers on the way to the metadata of an image, and where they are in the file. -/
structure Metadata where
  image : Image
  /-- The offset of the CLI header. -/
  cliOffset : Nat
  cli : CliHeader
  /-- The offset of the root. -/
  offset : Nat
  root : Root

namespace Metadata

/-- Finds the metadata of an image. Tables in the loose layout are not supported. -/
def locate (image : Image) : Except Fault Metadata := do
  let (cliRva, cliSize) ← image.cliExtent
  if cliSize < CliHeader.byteSize then .error (.smallCliDirectory cliSize)
  else
    let cliOffset ← image.offsetOf cliRva
    let cli ← CliHeader.ofBytes (← image.slice cliOffset CliHeader.byteSize)
    let offset ← image.offsetOf cli.metadata.rva.toNat
    let root ← Root.ofBytes (← image.slice offset cli.metadata.size.toNat)
    if (root.stream? TableStream.looseStreamName).isSome then .error .unsupported
    else return ⟨image, cliOffset, cli, offset, root⟩

/-- The contents of the first stream of a name, if there is one. -/
def stream? (md : Metadata) (name : String) : Except Fault (Option Bytes) :=
  match md.root.stream? name with
  | none => .ok none
  | some entry =>
    if md.cli.metadata.size.toNat < entry.offset.toNat + entry.size.toNat then .error .outOfBounds
    else some <$> md.image.slice (md.offset + entry.offset.toNat) entry.size.toNat

/-- The contents of a stream that cannot be missing. -/
def stream (md : Metadata) (name : String) : Except Fault Bytes := do
  match ← md.stream? name with
  | some data => return data
  | none => .error (.streamMissing name)

end Metadata

end IlSplice
