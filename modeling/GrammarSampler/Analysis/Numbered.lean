import GrammarSampler.Grammar.Production
import GrammarSampler.Symbol.IdSet
import GrammarSampler.Symbol.Numbering

/-!
# Numbered productions

The numbering of a list of productions, and the sets of ids that can be read off single productions.
-/

namespace GrammarSampler

/-- Numbers the nonterminals in reading order.  The start symbol has the id 0. -/
def Numbering.ofProductions (start : Nonterminal) (ps : List Production) : Numbering :=
  Numbering.empty.insertAll (start :: nonterminalsOf ps)

/-- The ids of those nonterminals in `as` that have one. -/
def Numbering.idSet (x : Numbering) (as : List Nonterminal) : IdSet :=
  (as.filterMap x.id?).foldl IdSet.add (IdSet.empty x.size)

/-- The nonterminals with ids in `s`, in order of ids. -/
def Numbering.members (x : Numbering) (s : IdSet) : List Nonterminal := s.toList.filterMap x.get?

/-- The nonterminals with an empty production. -/
def emptySet (x : Numbering) (ps : List Production) : IdSet :=
  x.idSet ((ps.filter Production.isEmpty).map Production.lhs)

/-- The nonterminals with a production whose right-hand side holds no nonterminal. -/
def terminalOnlySet (x : Numbering) (ps : List Production) : IdSet :=
  x.idSet ((ps.filter fun p => p.nonterminals.isEmpty).map Production.lhs)

end GrammarSampler
