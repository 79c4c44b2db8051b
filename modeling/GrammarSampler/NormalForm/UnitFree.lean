import GrammarSampler.Analysis.Relations

/-!
# Elimination of unit productions

Each nonterminal takes over the other productions of all that derive from it by unit productions.
An empty right-hand side is taken over by the start symbol only.
-/

namespace GrammarSampler

/-- The ids whose productions `i` takes over: its own, then those in its row in order. -/
def takenOver (r : IdRelation) (i : Nat) : List Nat := i :: (r.row i).filter (· ≠ i)

/-- Eliminates unit productions. -/
def eliminateUnits (ps : List Production) (start : Nonterminal) : List Production :=
  let x := Numbering.ofProductions start ps
  let units := unitDerivation x ps
  let others := ps.filter fun p => !p.isUnit
  (x.toList.flatMap fun (i, a) =>
    (((takenOver units i).filterMap x.get?).flatMap (alternativesFor · others)).filterMap fun rhs =>
      if rhs.isEmpty && a ≠ start then none else some ⟨a, rhs⟩).eraseDups

end GrammarSampler
