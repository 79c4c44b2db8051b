import GrammarSampler.Grammar.Basic
import GrammarSampler.Text.Blank

/-!
# Written grammars

A grammar is written with one line for each left-hand side, `S -> A B | 'a'`.  Lines are in order of
first occurrence, except that the line of the start symbol comes first.  No line ends in a blank.
-/

namespace GrammarSampler

/-- The symbols of a right-hand side, with a space between two. -/
def alternativeChars (rhs : List Symbol) : List Char :=
  [' '].intercalate (rhs.map Symbol.chars)

/-- All alternatives of `a` on one line. -/
def ruleChars (a : Nonterminal) (alternatives : List (List Symbol)) : List Char :=
  Text.trimEnd (a.name.toList ++ " -> ".toList ++
    " | ".toList.intercalate (alternatives.map alternativeChars))

/-- The left-hand sides in order of first occurrence, but the start symbol first if it is one. -/
def Grammar.lineOrder (g : Grammar) : List Nonterminal :=
  let order := (g.productions.map Production.lhs).eraseDups
  if g.start ∈ order then g.start :: order.erase g.start else order

/-- The characters of the written grammar. -/
def Grammar.chars (g : Grammar) : List Char :=
  g.lineOrder.flatMap fun a => ruleChars a (alternativesFor a g.productions) ++ ['\n']

/-- The written grammar. -/
def Grammar.written (g : Grammar) : String := String.ofList g.chars

end GrammarSampler
