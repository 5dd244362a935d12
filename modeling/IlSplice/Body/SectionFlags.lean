/-!
The flags at the start of a data section behind a method's code.
-/

namespace IlSplice

/-- The flags of a method data section. Bits without a meaning are dropped. -/
structure SectionFlags where
  /-- The section lists exception clauses. -/
  exceptions : Bool
  /-- Reserved. -/
  optionTable : Bool
  /-- Sizes and clauses use their wide form. -/
  fat : Bool
  /-- Another section follows. -/
  more : Bool
  deriving DecidableEq, Repr

namespace SectionFlags

/-- Reads the flags from their byte. -/
def ofByte (b : UInt8) : SectionFlags :=
  let bit := fun i => b.toNat.testBit i
  ⟨bit 0, bit 1, bit 6, bit 7⟩

/-- The byte that holds the flags. -/
def toByte (f : SectionFlags) : UInt8 :=
  UInt8.ofNat (f.exceptions.toNat + 2 * f.optionTable.toNat + 64 * f.fat.toNat + 128 * f.more.toNat)

/-- The names of the flags that are set. -/
def names (f : SectionFlags) : List String :=
  [(f.exceptions, "EHTABLE"), (f.optionTable, "OPT_ILTABLE"), (f.fat, "FAT_FORMAT"),
    (f.more, "MORE_SECTS")].filterMap fun (set, name) => if set then some name else none

/-- The flags spelt out. -/
def describe (f : SectionFlags) : String :=
  "SectionFlags(" ++ (if f.names.isEmpty then "0x0" else " | ".intercalate f.names) ++ ")"

end SectionFlags

end IlSplice
