import GrammarSampler.Grammar.Basic

/-!
# Building a grammar step by step

A builder collects productions for a current left-hand side, which is the start symbol at first.
-/

namespace GrammarSampler

/-- A grammar under construction. -/
structure GrammarBuilder where
  start : Nonterminal
  /-- The left-hand side of the alternatives that are added next. -/
  current : Nonterminal
  productions : List Production

namespace GrammarBuilder

/-- A builder without productions, whose current left-hand side is the start symbol. -/
def new (start : Nonterminal) : GrammarBuilder := ⟨start, start, []⟩

/-- Goes on with the left-hand side `a`. -/
def rule (b : GrammarBuilder) (a : Nonterminal) : GrammarBuilder := { b with current := a }

/-- Adds an alternative for the current left-hand side. -/
def alternative (b : GrammarBuilder) (rhs : List Symbol) : GrammarBuilder :=
  { b with productions := b.productions ++ [⟨b.current, rhs⟩] }

/-- The finished grammar. -/
def build (b : GrammarBuilder) : Except GrammarError Grammar :=
  Grammar.ofProductions b.start b.productions

end GrammarBuilder

end GrammarSampler
