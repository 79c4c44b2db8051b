import GrammarSampler.Analysis.Closure
import GrammarSampler.Analysis.Relations

/-!
# Removal of useless productions

A production is useful if all its nonterminals derive terminal words and its left-hand side can be
reached from the start symbol through such productions.
-/

namespace GrammarSampler

/-- The productions all of whose nonterminals have ids in `s`. -/
def withinSet (x : Numbering) (s : IdSet) (ps : List Production) : List Production :=
  ps.filter fun p => (p.lhs :: p.nonterminals).all fun a => (x.id? a).any s.has

/-- Removes the productions that are of no use, keeping the order. -/
def removeUseless (ps : List Production) (start : Nonterminal) : List Production :=
  let x := Numbering.ofProductions start ps
  let productive := withinSet x (productiveSet x ps) ps
  let reachable := reachability x productive
  productive.filter fun p => (x.id? p.lhs).any fun i => reachable.has 0 i

end GrammarSampler
