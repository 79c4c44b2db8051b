import GrammarSampler.Analysis.Numbered
import GrammarSampler.Symbol.IdRelation

/-!
# Relations between nonterminals

One nonterminal uses another when the latter stands on a right-hand side of the former.  Their
reflexive and transitive closures are reachability and, for unit productions alone, unit derivation.
-/

namespace GrammarSampler

/-- Relates the ids of every pair in `pairs` of which both have one. -/
def Numbering.relation (x : Numbering) (pairs : List (Nonterminal × Nonterminal)) : IdRelation :=
  pairs.foldl (fun r ab =>
    match x.id? ab.1, x.id? ab.2 with
    | some i, some j => r.insert i j
    | _, _ => r) (IdRelation.empty x.size)

/-- The left-hand side of a production with each nonterminal on its right-hand side. -/
def Production.uses (p : Production) : List (Nonterminal × Nonterminal) :=
  p.nonterminals.map fun b => (p.lhs, b)

/-- Each nonterminal with those on its right-hand sides. -/
def directRelation (x : Numbering) (ps : List Production) : IdRelation :=
  x.relation (ps.flatMap Production.uses)

/-- Each nonterminal with those that occur in what derives from it. -/
def reachability (x : Numbering) (ps : List Production) : IdRelation :=
  (directRelation x ps).transitive.reflexive

/-- Each nonterminal with those that derive from it by unit productions. -/
def unitDerivation (x : Numbering) (ps : List Production) : IdRelation :=
  (x.relation ((ps.filter Production.isUnit).flatMap Production.uses)).transitive.reflexive

end GrammarSampler
