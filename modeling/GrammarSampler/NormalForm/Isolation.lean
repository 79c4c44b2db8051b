import GrammarSampler.Grammar.Production
import GrammarSampler.Symbol.NameSupply

/-!
# Isolation of terminals

A terminal that shares its right-hand side with other symbols gives way to a fresh nonterminal whose
only production is that terminal.  Each terminal has one such nonterminal for all productions.
-/

namespace GrammarSampler

/-- The nonterminals that stand for terminals so far, in order of introduction, and the supply of
names for more. -/
structure Isolation where
  supply : NameSupply
  assigned : List (Terminal × Nonterminal)

namespace Isolation

/-- The nonterminal that stands for `t`, which is introduced if there is none. -/
def standIn (s : Isolation) (t : Terminal) : Nonterminal × Isolation :=
  match s.assigned.lookup t with
  | some a => (a, s)
  | none =>
    let (name, supply) := s.supply.next
    (⟨name⟩, ⟨supply, s.assigned ++ [(t, ⟨name⟩)]⟩)

/-- Replaces the terminals of a right-hand side. -/
def replace (s : Isolation) : List Symbol → List Symbol × Isolation
  | [] => ([], s)
  | .nonterminal a :: rhs =>
    let (rhs, s) := s.replace rhs
    (.nonterminal a :: rhs, s)
  | .terminal t :: rhs =>
    let (a, s) := s.standIn t
    let (rhs, s) := s.replace rhs
    (.nonterminal a :: rhs, s)

/-- Replaces the terminals of every right-hand side that holds one beside other symbols. -/
def rewrite (s : Isolation) : List Production → List Production × Isolation
  | [] => ([], s)
  | p :: ps =>
    if p.rhs.length < 2 then
      let (ps, s) := s.rewrite ps
      (p :: ps, s)
    else
      let (rhs, s) := s.replace p.rhs
      let (ps, s) := s.rewrite ps
      (⟨p.lhs, rhs⟩ :: ps, s)

/-- The productions of the introduced nonterminals. -/
def introduced (s : Isolation) : List Production :=
  s.assigned.map fun ta => ⟨ta.2, [.terminal ta.1]⟩

end Isolation

/-- Isolates the terminals of `ps` with names from the supply.  The introduced productions come
last. -/
def isolateTerminals (ps : List Production) (supply : NameSupply) :
    List Production × NameSupply :=
  let (rewritten, s) := Isolation.rewrite ⟨supply, []⟩ ps
  (rewritten ++ s.introduced, s.supply)

end GrammarSampler
