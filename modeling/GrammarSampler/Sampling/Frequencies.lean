import GrammarSampler.Symbol.Basic

/-!
# Frequencies of strings

How often each string was seen.  Strings are kept in lexicographic order.
-/

namespace GrammarSampler

/-- Each string with the number of its occurrences, and their total. -/
structure Frequencies where
  counts : List (List Terminal × Nat)
  total : Nat
  deriving DecidableEq

namespace Frequencies

/-- Nothing was seen. -/
def empty : Frequencies := ⟨[], 0⟩

/-- Adds an occurrence of `w` in order. -/
def bump (w : List Terminal) : List (List Terminal × Nat) → List (List Terminal × Nat)
  | [] => [(w, 1)]
  | (v, n) :: rest =>
    match compare w v with
    | .lt => (w, 1) :: (v, n) :: rest
    | .eq => (v, n + 1) :: rest
    | .gt => (v, n) :: bump w rest

/-- Records one occurrence of `w`. -/
def record (f : Frequencies) (w : List Terminal) : Frequencies := ⟨bump w f.counts, f.total + 1⟩

/-- Records `n` occurrences of `w`. -/
def recordTimes (w : List Terminal) : Nat → Frequencies → Frequencies
  | 0, f => f
  | n + 1, f => recordTimes w n (f.record w)

/-- The number of occurrences of `w`. -/
def get (f : Frequencies) (w : List Terminal) : Nat := (f.counts.lookup w).getD 0

/-- The number of different strings. -/
def distinct (f : Frequencies) : Nat := f.counts.length

end Frequencies

end GrammarSampler
