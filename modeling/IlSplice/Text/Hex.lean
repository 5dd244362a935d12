/-!
Numbers in base sixteen.

Tokens, offsets and opcode values are shown to the user in hexadecimal, some of them with a
fixed number of digits.
-/

namespace IlSplice.Hex

/-- The lower-case digits of `n`, without leading zeros. -/
def digits (n : Nat) : String :=
  String.ofList (Nat.toDigits 16 n)

/-- The lower-case digits of `n`, with zeros in front up to `width` digits. -/
def padded (width n : Nat) : String :=
  let ds := Nat.toDigits 16 n
  String.ofList (List.replicate (width - ds.length) '0' ++ ds)

/-- The upper-case digits of `n`, with zeros in front up to `width` digits. -/
def paddedUpper (width n : Nat) : String :=
  (padded width n).map Char.toUpper

/-- A signed 64-bit number is shown as the digits of its two's complement. -/
def digits64 (n : Int) : String :=
  digits (n % 0x10000000000000000).toNat

end IlSplice.Hex
