import IlSplice.Decimal.Shortest

/-!
The text of floating-point numbers.

Listings write every number positionally. Descriptions of operands mark a number as a float by
a decimal point and switch to an exponent where the positional form grows long.
-/

namespace IlSplice.Decimal

/-- How a finite number is written. -/
structure Style where
  /-- The exponents, of the first digit, that are written positionally; `none` for all. -/
  positional : Option (Int × Int)
  /-- Whether a positional integer ends in `.0`. -/
  pointZero : Bool

/-- The style of listings. -/
def Style.listing : Style := ⟨none, false⟩

/-- The style of operand descriptions: positional from `1e-4` up to, but without, `1e16`. -/
def Style.described : Style := ⟨some (-4, 15), true⟩

/-- Digits with the point at its place, and zeros on either side as needed. -/
def positionalText (style : Style) (s : Scientific) : String :=
  let ds := Nat.toDigits 10 s.digits
  if 0 ≤ s.exponent then
    String.ofList (ds ++ List.replicate s.exponent.toNat '0')
      ++ if style.pointZero then ".0" else ""
  else
    let places := (-s.exponent).toNat
    let ds := List.replicate (places + 1 - ds.length) '0' ++ ds
    String.ofList (ds.take (ds.length - places) ++ '.' :: ds.drop (ds.length - places))

/-- One digit before the point, the others after it, and the exponent of the first. -/
def exponentText (s : Scientific) : String :=
  let ds := Nat.toDigits 10 s.digits
  let exponent := s.exponent + (ds.length - 1 : Nat)
  let fraction := if ds.length = 1 then [] else '.' :: ds.drop 1
  String.ofList (ds.take 1 ++ fraction) ++ "e" ++ toString exponent

/-- The text of a positive finite number. -/
def Style.finiteText (style : Style) (s : Scientific) : String :=
  let exponent := s.exponent + ((Nat.toDigits 10 s.digits).length - 1 : Nat)
  match style.positional with
  | some (low, high) =>
    if low ≤ exponent ∧ exponent ≤ high then positionalText style s else exponentText s
  | none => positionalText style s

/-- The text of the number with the given bits. -/
def Style.text (style : Style) (format : BinaryFormat) (bits : Nat) : String :=
  let sign := fun negative : Bool => if negative then "-" else ""
  match format.decode bits with
  | .notANumber => "NaN"
  | .infinite negative => sign negative ++ "inf"
  | .zero negative => sign negative ++ if style.pointZero then "0.0" else "0"
  | .finite negative significand exponent tight =>
    sign negative ++ style.finiteText (shortest significand exponent tight)

end IlSplice.Decimal
