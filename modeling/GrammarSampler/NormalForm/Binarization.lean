import GrammarSampler.Grammar.Production
import GrammarSampler.Symbol.NameSupply

/-!
# Binarization

A right-hand side of more than two symbols becomes a chain of productions with two symbols each:
`A -> X Y Z` becomes `A -> X N` and `N -> Y Z` with a fresh nonterminal `N`.
-/

namespace GrammarSampler

/-- The chain of productions that rewrites `a` to `rhs`. -/
def binaryChain (a : Nonterminal) (supply : NameSupply) :
    List Symbol → List Production × NameSupply
  | x :: y :: z :: rhs =>
    let (name, supply) := supply.next
    let (chain, supply) := binaryChain ⟨name⟩ supply (y :: z :: rhs)
    (⟨a, [x, .nonterminal ⟨name⟩]⟩ :: chain, supply)
  | rhs => ([⟨a, rhs⟩], supply)

/-- Puts the chain of each production in its place. -/
def binarize : List Production → NameSupply → List Production × NameSupply
  | [], supply => ([], supply)
  | p :: ps, supply =>
    let (chain, supply) := binaryChain p.lhs supply p.rhs
    let (rest, supply) := binarize ps supply
    (chain ++ rest, supply)

end GrammarSampler
