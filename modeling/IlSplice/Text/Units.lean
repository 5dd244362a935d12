/-!
Text as UTF-16 code units.

`units` splits a text into units and `ofUnits` puts units together; units that belong to no
character become the replacement character.
-/

namespace IlSplice.Text

/-- The code units of a character: one, or a high and a low surrogate. -/
def charUnits (c : Char) : List UInt16 :=
  if c.toNat < 0x10000 then [UInt16.ofNat c.toNat]
  else
    let n := c.toNat - 0x10000
    [UInt16.ofNat (0xD800 + n / 0x400), UInt16.ofNat (0xDC00 + n % 0x400)]

/-- The code units of a text. -/
def units (text : String) : List UInt16 := text.toList.flatMap charUnits

/-- The first half of a pair. -/
def isHighSurrogate (u : UInt16) : Bool := 0xD800 ≤ u && u < 0xDC00

/-- The second half of a pair. -/
def isLowSurrogate (u : UInt16) : Bool := 0xDC00 ≤ u && u < 0xE000

/-- The character of a pair of surrogates. -/
def pairChar (high low : UInt16) : Char :=
  Char.ofNat (0x10000 + (high.toNat - 0xD800) * 0x400 + (low.toNat - 0xDC00))

/-- The character that stands for a surrogate without its partner. -/
def replacement : Char := '\uFFFD'

/-- The characters of code units, behind those already found, which are in reverse. -/
def decodeUnits (found : List Char) : List UInt16 → List Char
  | [] => found.reverse
  | [u] => decodeUnits ((if isHighSurrogate u || isLowSurrogate u then replacement
      else Char.ofNat u.toNat) :: found) []
  | u :: v :: rest =>
    if isHighSurrogate u && isLowSurrogate v then decodeUnits (pairChar u v :: found) rest
    else if isHighSurrogate u || isLowSurrogate u then
      decodeUnits (replacement :: found) (v :: rest)
    else decodeUnits (Char.ofNat u.toNat :: found) (v :: rest)

/-- The text of code units. -/
def ofUnits (us : List UInt16) : String := String.ofList (decodeUnits [] us)

end IlSplice.Text
