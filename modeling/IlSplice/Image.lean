import IlSplice.Image.Content

/-!
Portable executables that carry managed code.
-/

namespace IlSplice

/-- A file with managed code. -/
structure Image where
  data : Bytes
  headers : Headers
  optional : OptionalHeader
  cli : Directory

namespace Image

/-- Accepts the contents of a file. -/
def ofBytes (data : Bytes) : Except Fault Image :=
  if data.size = 0 then .error .emptyInput
  else
    match Headers.of? data with
    | none => .error .notExecutable
    | some headers =>
      match headers.optional with
      | none => .error .noOptionalHeader
      | some optional =>
        if !Content.isSound ⟨data, headers.sections, optional⟩ then .error .notExecutable
        else
          match optional.directory? OptionalHeader.cliDirectory with
          | none => .error .noCliDirectory
          | some cli => .ok ⟨data, headers, optional, cli⟩

/-- The address and the size of the CLI header. -/
def cliExtent (image : Image) : Except Fault (Nat × Nat) :=
  if image.cli.rva = 0 then .error .emptyCliDirectory
  else .ok (image.cli.rva.toNat, image.cli.size.toNat)

/-- The offset of an address in the first section that contains it. -/
def offsetIn (rva : Nat) : List Section → Except Fault Nat
  | [] => .error (.addressUnmapped rva)
  | s :: rest =>
    if 0x100000000 ≤ s.stop then .error (.sectionOverflow s.address.toNat s.extent)
    else if s.address.toNat ≤ rva ∧ rva < s.stop then
      .ok (rva - s.address.toNat + s.rawOffset.toNat)
    else offsetIn rva rest

/-- The offset of an address in the file. -/
def offsetOf (image : Image) (rva : Nat) : Except Fault Nat :=
  if 0x100000000 ≤ rva then .error (.addressTooLarge rva) else offsetIn rva image.headers.sections

/-- A part of the file, of `length` bytes. -/
def slice (image : Image) (offset length : Nat) : Except Fault Bytes :=
  image.data.slice offset (offset + length)

end Image

end IlSplice
