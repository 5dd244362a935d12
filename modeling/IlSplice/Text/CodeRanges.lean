/-!
Sets of characters.

A set is given by ranges of the codes of its characters. `covers_iff` says which characters these
are.
-/

namespace IlSplice.Text

/-- A set of characters. -/
structure CodeRanges where
  /-- The first and the last code of each range. -/
  ranges : Array (Nat × Nat)

namespace CodeRanges

/-- The set holds a character. -/
def covers (s : CodeRanges) (c : Char) : Bool :=
  s.ranges.any fun (first, last) => first ≤ c.toNat && c.toNat ≤ last

/-- Ranges may overlap and come in any order: a character is in the set if one of them has its
code. -/
theorem covers_iff {s : CodeRanges} {c : Char} :
    s.covers c = true ↔ ∃ range ∈ s.ranges, range.1 ≤ c.toNat ∧ c.toNat ≤ range.2 := by
  simp only [covers, Array.any_eq_true', Bool.and_eq_true, decide_eq_true_eq]

end CodeRanges

end IlSplice.Text
