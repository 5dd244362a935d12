/-!
The attributes of methods that decide whether a method has code.
-/

namespace IlSplice

/-- What the code of a method is made of. -/
inductive CodeKind where
  | managed
  | native
  | reserved
  | runtime
  deriving DecidableEq, Repr

namespace CodeKind

/-- The kind that the implementation flags of a method state. -/
def ofFlags (flags : Nat) : CodeKind :=
  match flags % 4 with
  | 0 => .managed
  | 1 => .native
  | 2 => .reserved
  | _ => .runtime

/-- The bits of the implementation flags that state the kind. -/
def bits : CodeKind → Nat
  | .managed => 0
  | .native => 1
  | .reserved => 2
  | .runtime => 3

end CodeKind

/-- The flags of a method that matter. -/
structure MethodTraits where
  static : Bool
  virtual : Bool
  abstract : Bool
  /-- Calls go to native code of another file. -/
  forwarded : Bool
  deriving DecidableEq, Repr

namespace MethodTraits

/-- Reads the flags; all other bits are dropped. -/
def ofFlags (flags : Nat) : MethodTraits :=
  ⟨flags.testBit 4, flags.testBit 6, flags.testBit 10, flags.testBit 13⟩

/-- The bits of the flags. -/
def bits (t : MethodTraits) : Nat :=
  0x0010 * t.static.toNat + 0x0040 * t.virtual.toNat + 0x0400 * t.abstract.toNat
    + 0x2000 * t.forwarded.toNat

end MethodTraits

/-- A method has a body exactly if it is placed in the image, consists of managed code, and is
neither abstract nor forwarded. -/
def hasBody (rva implFlags flags : Nat) : Bool :=
  let traits := MethodTraits.ofFlags flags
  rva ≠ 0 && CodeKind.ofFlags implFlags = .managed && !traits.abstract && !traits.forwarded

end IlSplice
