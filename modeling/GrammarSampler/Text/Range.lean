/-!
# Ranges of code points

A character class is a list of ranges of code points, both ends included.
-/

namespace GrammarSampler.Text

/-- The first and the last code point of a range. -/
abbrev Range := Nat × Nat

/-- The code point of `c` lies in one of the ranges. -/
def inRanges (ranges : List Range) (c : Char) : Bool :=
  ranges.any fun r => r.1 ≤ c.toNat && c.toNat ≤ r.2

theorem inRanges_iff {ranges : List Range} {c : Char} :
    inRanges ranges c = true ↔ ∃ r ∈ ranges, r.1 ≤ c.toNat ∧ c.toNat ≤ r.2 := by
  simp [inRanges]

end GrammarSampler.Text
