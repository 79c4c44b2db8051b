import GrammarSampler.Text.Range

/-!
# Blanks

The characters with the Unicode property `White_Space`, and the removal of blanks at the end of a
line (`trimEnd`).
-/

namespace GrammarSampler.Text

/-- The ranges of white space, in increasing order. -/
def blankRanges : List Range := [
  (0x0009, 0x000d), (0x0020, 0x0020), (0x0085, 0x0085), (0x00a0, 0x00a0), (0x1680, 0x1680),
  (0x2000, 0x200a), (0x2028, 0x2029), (0x202f, 0x202f), (0x205f, 0x205f), (0x3000, 0x3000)]

/-- White space of any kind, line breaks included. -/
def isBlank (c : Char) : Bool := inRanges blankRanges c

/-- `cs` without the blanks at its end. -/
def trimEnd (cs : List Char) : List Char := (cs.reverse.dropWhile isBlank).reverse

theorem trimEnd_append_of_not_blank {c : Char} (cs : List Char) (h : isBlank c = false) :
    trimEnd (cs ++ [c]) = cs ++ [c] := by
  simp [trimEnd, h]

/-- Only what stands after a character that is not blank is trimmed. -/
theorem trimEnd_append_cons {c : Char} (h : isBlank c = false) (cs ds : List Char) :
    trimEnd (cs ++ c :: ds) = cs ++ c :: trimEnd ds := by
  simp only [trimEnd, List.reverse_append, List.reverse_cons, List.append_assoc,
    List.singleton_append, List.dropWhile_append]
  split
  · next hblank =>
    rw [List.dropWhile_cons_of_neg (by simp [h]), List.isEmpty_iff.1 hblank]
    simp
  · simp

end GrammarSampler.Text
