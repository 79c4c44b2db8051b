import GrammarSampler.Counting.Total
import GrammarSampler.Random.Draw

/-!
# Weighted choice

An index is chosen with a probability in proportion to its weight: a point is drawn below the sum of
all weights, and the weights in turn cover intervals of the points.
-/

namespace GrammarSampler

/-- Why no string is generated. -/
inductive GenerateError where
  /-- No string of this length derives from the nonterminal. -/
  | noString (length : Nat)
  /-- Weights do not add up to the count of derivations. -/
  | weightMismatch
  /-- The counts for this length do not fit into a table. -/
  | tooLong
  deriving DecidableEq

/-- The error in words. -/
def GenerateError.message : GenerateError → String
  | noString n => "no string of length " ++ toString n ++ " can be generated"
  | weightMismatch => "derivation weights disagree with derivation counts"
  | tooLong => "derivation counts do not fit into a table"

/-- The index of the first weight with which the sum of the weights exceeds `point`.  Before
`weights` there are `i` others, whose sum is `sum`. -/
def coveringFrom (point : Nat) : Nat → Nat → List Nat → Option Nat
  | _, _, [] => none
  | i, sum, w :: weights =>
    if point < sum + w then some i else coveringFrom point (i + 1) (sum + w) weights

/-- The index of the weight whose interval contains `point`. -/
def coveringIndex (weights : List Nat) (point : Nat) : Option Nat :=
  coveringFrom point 0 0 weights

/-- Chooses an index of `weights`, whose total must be `expected` and positive.  Nothing is drawn
otherwise. -/
def chooseWeighted (weights : List Nat) (expected : Nat) (s : Source) :
    Except GenerateError Nat × Source :=
  if total weights = 0 ∨ total weights ≠ expected then (.error .weightMismatch, s)
  else
    let (point, s) := s.below expected
    match coveringIndex weights point with
    | some i => (.ok i, s)
    | none => (.error .weightMismatch, s)

end GrammarSampler
