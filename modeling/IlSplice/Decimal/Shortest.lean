/-!
The shortest decimal that reads back as a given binary floating-point number.

A finite number is `significand * 2 ^ exponent`, and every real in an interval around it rounds
to it. Of the decimals in that interval the shortest one is chosen, and of the shortest ones the
nearest. The search looks at grids of one digit, two digits and so on; on each grid only the two
neighbours of the number can lie inside the interval.
-/

namespace IlSplice.Decimal

/-- A binary interchange format, by the widths of its two fields. -/
structure BinaryFormat where
  fractionBits : Nat
  exponentBits : Nat

/-- The 32-bit format. -/
def binary32 : BinaryFormat := ⟨23, 8⟩

/-- The 64-bit format. -/
def binary64 : BinaryFormat := ⟨52, 11⟩

/-- What a bit pattern stands for. -/
inductive BinaryValue where
  | notANumber
  | infinite (negative : Bool)
  | zero (negative : Bool)
  /-- The number `significand * 2 ^ exponent`; `tight` marks the smallest significand of its
  exponent, whose lower neighbour is only half as far away as the upper one. -/
  | finite (negative : Bool) (significand : Nat) (exponent : Int) (tight : Bool)
  deriving DecidableEq, Repr

/-- Splits a bit pattern into sign, exponent and fraction, and reads them. -/
def BinaryFormat.decode (f : BinaryFormat) (bits : Nat) : BinaryValue :=
  let fraction := bits % (1 <<< f.fractionBits)
  let biased := bits >>> f.fractionBits % (1 <<< f.exponentBits)
  let negative := bits.testBit (f.fractionBits + f.exponentBits)
  let lowest := 2 - (1 <<< (f.exponentBits - 1) : Nat) - (f.fractionBits : Int)
  if biased = 1 <<< f.exponentBits - 1 then
    if fraction = 0 then .infinite negative else .notANumber
  else if biased = 0 then
    if fraction = 0 then .zero negative else .finite negative fraction lowest false
  else
    .finite negative (1 <<< f.fractionBits + fraction) (lowest + (biased - 1))
      (fraction = 0 && 1 < biased)

/-- The decimal `digits * 10 ^ exponent`. -/
structure Scientific where
  digits : Nat
  exponent : Int
  deriving DecidableEq, Repr

/-- The reals that round to `value / unit`: from `low / unit` to `high / unit`, with the ends
where `closed`. -/
structure Rounding where
  low : Nat
  value : Nat
  high : Nat
  unit : Nat
  closed : Bool

/-- The rounding interval of `significand * 2 ^ exponent`, in quarters of its last place. -/
def Rounding.of (significand : Nat) (exponent : Int) (tight : Bool) : Rounding :=
  let quarters := exponent - 2
  let scale := 1 <<< quarters.toNat
  { low := (4 * significand - if tight then 1 else 2) * scale
    value := 4 * significand * scale
    high := (4 * significand + 2) * scale
    unit := 1 <<< (-quarters).toNat
    closed := significand % 2 = 0 }

namespace Rounding

/-- The power of ten of an exponent; one, if the exponent is negative. -/
def powerOfTen (k : Int) : Nat := Nat.pow 10 k.toNat

/-- The decimal `n * 10 ^ k` lies in the interval. -/
def contains (r : Rounding) (n : Nat) (k : Int) : Bool :=
  let point := n * r.unit * powerOfTen k
  let low := r.low * powerOfTen (-k)
  let high := r.high * powerOfTen (-k)
  low < point && point < high || r.closed && (point = low || point = high)

/-- The number of tens by which a value below one has to be raised to reach one. -/
def tensBelowOne (value unit : Nat) : Nat → Nat
  | 0 => 0
  | fuel + 1 => if unit ≤ value then 0 else tensBelowOne (value * 10) unit fuel + 1

/-- The exponent of the power of ten just below the value. -/
def magnitude (r : Rounding) : Int :=
  if r.unit ≤ r.value then (Nat.toDigits 10 (r.value / r.unit)).length - 1
  else - (tensBelowOne r.value r.unit 400 : Int)

/-- The decimal of the grid of `10 ^ k` that lies in the interval, the nearer one if both
neighbours of the value do. -/
def onGrid? (r : Rounding) (k : Int) : Option Scientific :=
  let numerator := r.value * powerOfTen (-k)
  let spacing := r.unit * powerOfTen k
  let below := numerator / spacing
  match r.contains below k, r.contains (below + 1) k with
  | true, true =>
    if 2 * (numerator % spacing) < spacing then some ⟨below, k⟩ else some ⟨below + 1, k⟩
  | true, false => some ⟨below, k⟩
  | false, true => some ⟨below + 1, k⟩
  | false, false => none

/-- The first hit on the grids of `10 ^ k`, `10 ^ (k - 1)` and so on. -/
def firstHit (r : Rounding) (k : Int) : Nat → Option Scientific
  | 0 => none
  | grids + 1 => r.onGrid? k <|> firstHit r (k - 1) grids

end Rounding

/-- Moves the zeros at the end of the digits into the exponent. -/
def Scientific.trim (s : Scientific) : Nat → Scientific
  | 0 => s
  | steps + 1 =>
    if s.digits ≠ 0 ∧ s.digits % 10 = 0 then trim ⟨s.digits / 10, s.exponent + 1⟩ steps else s

/-- The shortest decimal that rounds to `significand * 2 ^ exponent`. Seventeen digits suffice
for both formats. -/
def shortest (significand : Nat) (exponent : Int) (tight : Bool) : Scientific :=
  let r := Rounding.of significand exponent tight
  ((r.firstHit r.magnitude 18).getD ⟨0, 0⟩).trim 20

end IlSplice.Decimal
