import GrammarSampler.Grammar.Basic
import GrammarSampler.NormalForm.Binarization
import GrammarSampler.NormalForm.EmptyFree
import GrammarSampler.NormalForm.Isolation
import GrammarSampler.NormalForm.Useful
import GrammarSampler.NormalForm.UnitFree

/-!
# Chomsky normal form

Any grammar whose start symbol has a production is brought to Chomsky normal form
(`Grammar.toChomsky`): terminals are isolated, right-hand sides are cut to two symbols, empty and
unit productions are eliminated, and what is useless is removed.  A grammar that is in the normal
form already stays as it is.
-/

namespace GrammarSampler

/-- Why a grammar has no normal form. -/
inductive NormalFormError where
  /-- The nonterminal `a` has no production. -/
  | noProductions (a : Nonterminal)
  deriving DecidableEq

/-- The error in words. -/
def NormalFormError.message : NormalFormError → String
  | noProductions a =>
    "grammar is not normalizable: nonterminal `" ++ a.name ++ "` has no productions"

/-- The productions of the normal form, where fresh names come from the supply. -/
def chomskyProductions (start : Nonterminal) (ps : List Production) (supply : NameSupply) :
    List Production :=
  let (isolated, supply) := isolateTerminals ps supply
  let (binary, _) := binarize isolated supply
  removeUseless (eliminateUnits (eliminateEmpty binary start) start) start

/-- The grammar in Chomsky normal form. -/
def Grammar.toChomsky (g : Grammar) : Except NormalFormError Grammar :=
  if (g.productionsFor g.start).isEmpty then .error (.noProductions g.start)
  else if g.isChomsky then .ok g
  else
    let supply := NameSupply.ofUsed (g.nonterminals.map Nonterminal.name)
    match Grammar.ofProductions g.start (chomskyProductions g.start g.productions supply) with
    | .ok c => .ok c
    | .error (.undefined a) => .error (.noProductions a)

end GrammarSampler
