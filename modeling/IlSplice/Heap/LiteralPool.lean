import IlSplice.Edit
import IlSplice.Heap.Literals

/-!
A heap of string literals that grows.

A pool starts from an existing heap and only ever adds entries at its end. A text that some entry
already holds is not added again.
-/

namespace IlSplice

/-- A growing heap of literals. -/
structure LiteralPool where
  data : Bytes
  /-- The offsets of the texts that are not to be added again; the first one counts. -/
  known : List (List UInt16 × Nat)
  /-- The number of entries that were added. -/
  added : Nat

namespace LiteralPool

/-- The greatest offset that a token can hold. -/
def maxOffset : Nat := 0xFFFFFF

/-- The pool of an existing heap. -/
def ofBytes (data : Bytes) : Except Fault LiteralPool := do
  let heap ← Literals.ofBytes data
  match heap.texts with
  | (_, some fault) => .error fault
  | (texts, none) => return ⟨data, texts.toList.map fun (offset, units) => (units, offset), 0⟩

/-- The unit is not plain 8-bit text: it has a high byte, or its low byte is a control, an
apostrophe, a hyphen or the delete character. -/
def needsCare (u : UInt16) : Bool :=
  let low := u.toNat % 256
  u.toNat / 256 ≠ 0 || 0x01 ≤ low && low ≤ 0x08 || 0x0E ≤ low && low ≤ 0x1F
    || low = 0x27 || low = 0x2D || low = 0x7F

/-- The bytes of an entry behind its length. -/
def entryBody (units : List UInt16) : List UInt8 :=
  units.flatMap (fun u => leBytes 2 u.toNat) ++ [if units.any needsCare then 1 else 0]

/-- The token of a text, which is added to the heap if it is not known. -/
def intern (text : String) : Edit LiteralPool Token := fun pool =>
  let units := Text.units text
  match pool.known.lookup units with
  | some offset => .ok (Token.ofParts Token.literalTable offset) pool
  | none =>
    let offset := pool.data.size
    let length := units.length * 2 + 1
    if maxOffset < offset then .error (.literalHeapFull offset) pool
    else if 0x100000000 ≤ length then .error (.literalTooLong units.length) pool
    else
      match Compressed.encode length with
      | .error fault => .error fault pool
      | .ok lengthBytes =>
        .ok (Token.ofParts Token.literalTable offset)
          { data := pool.data ++ (lengthBytes ++ entryBody units).toArray
            known := pool.known ++ [(units, offset)]
            added := pool.added + 1 }

/-- The heap, filled up to a multiple of four bytes. -/
def finish (pool : LiteralPool) : Bytes := pool.data.padTo 4

end LiteralPool

end IlSplice
