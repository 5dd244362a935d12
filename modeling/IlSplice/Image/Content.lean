import IlSplice.Image.Headers

/-!
What the directories of an image lead to.

An image is accepted only if its directories make sense: the CLI directory has to lead to a CLI
header and on to the metadata, and thread storage, where there is any, has to lie in the image.

These two directories are all that is looked at. What the others lead to (exports, imports,
resources, exception handlers, certificates, relocations, debug data, load configuration) is never a
reason to refuse an image here, although a general reader of executables may refuse an image whose
imports or debug data are broken. The same goes for the contents of the header that build tools
leave, for checksums, and for the symbols that an image may carry.
-/

namespace IlSplice

/-- The file of an image, and how addresses are found in it. -/
structure Content where
  data : Bytes
  sections : List Section
  optional : OptionalHeader

namespace Content

/-- The offset of an address, as far as the bytes of a section are taken from the file. -/
def locate? (c : Content) (rva : Nat) : Option Nat := do
  let fileAlignment := c.optional.fileAlignment.toNat
  guard (isPowerOfTwo fileAlignment)
  let home ← c.sections.find? fun s =>
    s.address.toNat ≤ rva ∧ rva < s.address.toNat + s.readSize fileAlignment
  return home.rawOffset.toNat + (rva - home.address.toNat)

/-- A number of `width` bytes, if they are there. -/
def number? (c : Content) (offset width : Nat) : Option Nat :=
  if offset + width ≤ c.data.size then some (c.data.uintAt offset width) else none

/-- The bytes of an address in memory. -/
def addressSize (c : Content) : Nat := if c.optional.plus then 8 else 4

/-- The offset of an address in memory, which counts from the base of the image. -/
def locateAddress? (c : Content) (address : Nat) : Option Nat := do
  guard (c.optional.imageBase.toNat ≤ address)
  c.locate? (address - c.optional.imageBase.toNat)

/-- The CLI directory leads to a CLI header, and that to a metadata root with a version text. -/
def leadsToMetadata (c : Content) (cli : Directory) : Option Unit := do
  let header ← c.locate? cli.rva.toNat
  guard (header + 72 ≤ c.data.size)
  let root ← c.locate? (c.data.uintAt (header + 8) 4)
  guard (root + 4 ≤ c.data.size ∧ root + c.data.uintAt (header + 12) 4 ≤ c.data.size)
  let length ← c.number? (root + 12) 4
  guard (root + 16 + length + 4 ≤ c.data.size)
  guard (Bytes.utf8? (c.data.extract (root + 16) (root + 16 + length))).isSome

/-- A list of addresses of code, ended by zero, lies in the image with all that it names. -/
def hasCallbacks (c : Content) (offset : Nat) : Option Unit := do
  if offset + c.addressSize ≤ c.data.size then
    let callback := c.data.uintAt offset c.addressSize
    if callback = 0 then return ()
    else
      let _ ← c.locateAddress? callback
      hasCallbacks c (offset + c.addressSize)
  else failure
termination_by c.data.size - offset
decreasing_by
  have : 0 < c.addressSize := by
    unfold addressSize
    split <;> decide
  omega

/-- The directory for thread storage leads to a record whose addresses lie in the image. -/
def hasThreadStorage (c : Content) (directory : Directory) : Option Unit := do
  let record ← c.locate? directory.rva.toNat
  guard (record + 4 * c.addressSize + 8 ≤ c.data.size)
  let field := fun i => c.data.uintAt (record + i * c.addressSize) c.addressSize
  let (first, last, slot, callbacks) := (field 0, field 1, field 2, field 3)
  if first ≠ 0 ∧ last ≠ 0 then
    guard (first ≤ last)
    let template ← c.locateAddress? first
    guard (template + (last - first) ≤ c.data.size)
  guard (slot = 0 ∨ c.optional.imageBase.toNat ≤ slot)
  if callbacks = 0 then return ()
  else c.hasCallbacks (← c.locateAddress? callbacks)

/-- The directories that are there make sense. -/
def isSound (c : Content) : Bool :=
  let check := fun (position : Nat) (test : Directory → Option Unit) =>
    ((c.optional.directory? position).all fun directory => (test directory).isSome)
  check OptionalHeader.threadDirectory c.hasThreadStorage
    && check OptionalHeader.cliDirectory c.leadsToMetadata

end Content

end IlSplice
