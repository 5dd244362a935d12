import IlSplice.Text.CodeRanges

/-!
The letters that form ligatures.
-/

namespace IlSplice.Text

/-- Forms of the Arabic letter alef. -/
def alefs : CodeRanges := ⟨#[
  (0x622, 0x623), (0x625, 0x625), (0x627, 0x627), (0x671, 0x673), (0x675, 0x675), (0x773, 0x774),
  (0x870, 0x882)]⟩

/-- Forms of the Arabic letter lam. -/
def lams : CodeRanges := ⟨#[
  (0x644, 0x644), (0x6b5, 0x6b8), (0x76a, 0x76a), (0x8a6, 0x8a6), (0x8c7, 0x8c7)]⟩

/-- Khmer letters that can be written below another one. -/
def khmerLetters : CodeRanges := ⟨#[
  (0x1780, 0x1782), (0x1784, 0x1787), (0x1789, 0x178c), (0x178e, 0x1793), (0x1795, 0x1798),
  (0x179b, 0x179d), (0x17a0, 0x17a0), (0x17a2, 0x17a2), (0x17a7, 0x17a7), (0x17ab, 0x17ac),
  (0x17af, 0x17af)]⟩

/-- Consonants of Tifinagh. -/
def tifinaghLetters : CodeRanges := ⟨#[
  (0x2d31, 0x2d65), (0x2d6f, 0x2d6f)]⟩

/-- Characters that shape a ligature and do not part it. -/
def ligatureShapers : CodeRanges := ⟨#[
  (0x34f, 0x34f), (0x17b4, 0x17b5), (0x180b, 0x180d), (0x180f, 0x180f), (0x200d, 0x200d),
  (0xfe00, 0xfe0f), (0xe0100, 0xe01ef)]⟩

end IlSplice.Text
