import IlSplice.Text.Hex

/-!
Metadata tokens.

A token is a 32-bit reference into the metadata: its high byte names a table, or the heap of
string literals, and its low 24 bits hold a row number or an offset into that heap.
-/

namespace IlSplice

/-- A reference such as `0x06000001`, the first method definition. -/
structure Token where
  value : UInt32
  deriving DecidableEq, Hashable, Repr, Inhabited

namespace Token

/-- The high byte. -/
def table (t : Token) : Nat := t.value.toNat >>> 24

/-- The low 24 bits: a row number, or an offset for a string literal. -/
def row (t : Token) : Nat := t.value.toNat % 0x1000000

/-- The token of a table byte and a row; bits that have no room are dropped. -/
def ofParts (table row : Nat) : Token :=
  ⟨UInt32.ofNat (table % 0x100 * 0x1000000 + row % 0x1000000)⟩

/-- The token that refers to nothing. -/
def null : Token := ⟨0⟩

/-- The table byte of type definitions. -/
def typeDefTable : Nat := 0x02

/-- The table byte of method definitions. -/
def methodDefTable : Nat := 0x06

/-- The table byte of member references. -/
def memberRefTable : Nat := 0x0A

/-- The table byte of generic method instances. -/
def methodSpecTable : Nat := 0x2B

/-- The byte that marks an offset into the heap of string literals. -/
def literalTable : Nat := 0x70

/-- Eight hexadecimal digits. -/
def text (t : Token) : String := "0x" ++ Hex.padded 8 t.value.toNat

instance : ToString Token := ⟨text⟩

/-- The token with its two parts spelt out. -/
def describe (t : Token) : String :=
  s!"Token({t.text}, table: 0x{Hex.padded 2 t.table}, row: {t.row})"

/-- Tokens have room for three bytes of a row. -/
theorem row_lt (t : Token) : t.row < 0x1000000 := by
  unfold row
  omega

/-- The two parts are cut to their bytes before they are joined, so that none spills into the other.
-/
theorem value_ofParts (table row : Nat) :
    (ofParts table row).value.toNat = table % 0x100 * 0x1000000 + row % 0x1000000 := by
  unfold ofParts
  rw [UInt32.toNat_ofNat', Nat.mod_eq_of_lt]
  omega

@[simp] theorem table_ofParts (table row : Nat) : (ofParts table row).table = table % 0x100 := by
  rw [Token.table, value_ofParts]
  omega

/-- A row that takes more than three bytes is lost. Whoever builds a token from a larger number gets
the token of another row. -/
@[simp] theorem row_ofParts (table row : Nat) : (ofParts table row).row = row % 0x1000000 := by
  rw [Token.row, value_ofParts]
  omega

end Token

end IlSplice
