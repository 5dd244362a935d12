import IlSplice.Text.Units
import Mathlib

/-! Putting code units together undoes splitting a text into them. -/

namespace IlSplice.Text

theorem isHighSurrogate_iff {u : UInt16} :
    isHighSurrogate u = true ↔ 0xD800 ≤ u.toNat ∧ u.toNat < 0xDC00 := by
  simp [isHighSurrogate, UInt16.le_iff_toNat_le, UInt16.lt_iff_toNat_lt]

/-- The second units of pairs, as numbers. No unit can be both a first and a second one. -/
theorem isLowSurrogate_iff {u : UInt16} :
    isLowSurrogate u = true ↔ 0xDC00 ≤ u.toNat ∧ u.toNat < 0xE000 := by
  simp [isLowSurrogate, UInt16.le_iff_toNat_le, UInt16.lt_iff_toNat_lt]

/-- No character is a surrogate. -/
theorem toNat_notSurrogate (c : Char) : c.toNat < 0xD800 ∨ 0xE000 ≤ c.toNat := by
  have := c.valid
  simp only [UInt32.isValidChar, Nat.isValidChar] at this
  change c.val.toNat < _ ∨ _ ≤ c.val.toNat
  omega

theorem toNat_lt (c : Char) : c.toNat < 0x110000 := by
  have := c.valid
  simp only [UInt32.isValidChar, Nat.isValidChar] at this
  change c.val.toNat < _
  omega

/-- A unit that is a character by itself. -/
theorem decodeUnits_single {c : Char} (hShort : c.toNat < 0x10000) (found : List Char)
    (rest : List UInt16) :
    decodeUnits found (UInt16.ofNat c.toNat :: rest) = decodeUnits (c :: found) rest := by
  have hUnit : (UInt16.ofNat c.toNat).toNat = c.toNat := by
    rw [UInt16.toNat_ofNat', Nat.mod_eq_of_lt hShort]
  have hChar := toNat_notSurrogate c
  have hHigh : isHighSurrogate (UInt16.ofNat c.toNat) = false := by
    rw [← Bool.not_eq_true, isHighSurrogate_iff, hUnit]
    omega
  have hLow : isLowSurrogate (UInt16.ofNat c.toNat) = false := by
    rw [← Bool.not_eq_true, isLowSurrogate_iff, hUnit]
    omega
  cases rest with
  | nil => simp [decodeUnits, hHigh, hLow, hUnit]
  | cons v rest => simp [decodeUnits, hHigh, hLow, hUnit]

/-- A pair of surrogates is one character. -/
theorem decodeUnits_pair {c : Char} (hLong : 0x10000 ≤ c.toNat) (found : List Char)
    (rest : List UInt16) :
    decodeUnits found (UInt16.ofNat (0xD800 + (c.toNat - 0x10000) / 0x400)
      :: UInt16.ofNat (0xDC00 + (c.toNat - 0x10000) % 0x400) :: rest)
        = decodeUnits (c :: found) rest := by
  have hRange := toNat_lt c
  have hFirst : (UInt16.ofNat (0xD800 + (c.toNat - 0x10000) / 0x400)).toNat
      = 0xD800 + (c.toNat - 0x10000) / 0x400 := by
    rw [UInt16.toNat_ofNat', Nat.mod_eq_of_lt (by omega)]
  have hSecond : (UInt16.ofNat (0xDC00 + (c.toNat - 0x10000) % 0x400)).toNat
      = 0xDC00 + (c.toNat - 0x10000) % 0x400 := by
    rw [UInt16.toNat_ofNat', Nat.mod_eq_of_lt (by omega)]
  have hHigh : isHighSurrogate (UInt16.ofNat (0xD800 + (c.toNat - 0x10000) / 0x400)) = true := by
    rw [isHighSurrogate_iff, hFirst]
    omega
  have hLow : isLowSurrogate (UInt16.ofNat (0xDC00 + (c.toNat - 0x10000) % 0x400)) = true := by
    rw [isLowSurrogate_iff, hSecond]
    omega
  rw [decodeUnits, hHigh, hLow, Bool.and_self, if_pos rfl, pairChar, hFirst, hSecond]
  have hValue : 0x10000 + (0xD800 + (c.toNat - 0x10000) / 0x400 - 0xD800) * 0x400
      + (0xDC00 + (c.toNat - 0x10000) % 0x400 - 0xDC00) = c.toNat := by omega
  rw [hValue, Char.ofNat_toNat]

/-- By induction on the characters, each of which gives one unit or a pair. -/
theorem decodeUnits_flatMap (found cs : List Char) :
    decodeUnits found (cs.flatMap charUnits) = found.reverse ++ cs := by
  induction cs generalizing found with
  | nil => simp [decodeUnits]
  | cons c rest ih =>
      rw [List.flatMap_cons, charUnits]
      split
      · rename_i hShort
        rw [List.singleton_append, decodeUnits_single hShort, ih]
        simp
      · rename_i hLong
        dsimp only
        rw [List.cons_append, List.singleton_append, decodeUnits_pair (Nat.le_of_not_lt hLong), ih]
        simp

/-- The units of a text stand for this text. -/
theorem ofUnits_units (text : String) : ofUnits (units text) = text := by
  rw [ofUnits, units, decodeUnits_flatMap, List.reverse_nil, List.nil_append, String.ofList_toList]

end IlSplice.Text
