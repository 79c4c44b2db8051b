import GrammarSampler.Symbol.Basic

/-!
# Productions

A production rewrites one nonterminal, its left-hand side, to a list of symbols, its right-hand
side.  Productions are ordered by left-hand side, then by right-hand side, a shorter right-hand side
before its continuations.
-/

namespace GrammarSampler

/-- A rewrite rule from `lhs` to `rhs`. -/
structure Production where
  lhs : Nonterminal
  rhs : List Symbol
  deriving DecidableEq, Ord, Inhabited

namespace Production

/-- The right-hand side has no symbol. -/
def isEmpty (p : Production) : Bool := p.rhs.isEmpty

/-- The right-hand side is one nonterminal. -/
def isUnit (p : Production) : Bool :=
  match p.rhs with
  | [.nonterminal _] => true
  | _ => false

/-- The terminal of a right-hand side that is one terminal. -/
def terminal? (p : Production) : Option Terminal :=
  match p.rhs with
  | [.terminal t] => some t
  | _ => none

/-- The nonterminals of a right-hand side that is two nonterminals. -/
def binary? (p : Production) : Option (Nonterminal × Nonterminal) :=
  match p.rhs with
  | [.nonterminal b, .nonterminal c] => some (b, c)
  | _ => none

/-- The nonterminals on the right-hand side, one entry for each occurrence. -/
def nonterminals (p : Production) : List Nonterminal := p.rhs.filterMap Symbol.nonterminal?

/-- The terminals on the right-hand side, one entry for each occurrence. -/
def terminals (p : Production) : List Terminal := p.rhs.filterMap Symbol.terminal?

/-- The left-hand side, an arrow, and every symbol of the right-hand side after a space. -/
def written (p : Production) : String :=
  String.ofList (p.lhs.name.toList ++ " ->".toList ++ p.rhs.flatMap fun s => ' ' :: s.chars)

theorem mem_nonterminals {p : Production} {a : Nonterminal} :
    a ∈ p.nonterminals ↔ Symbol.nonterminal a ∈ p.rhs := by
  simp [nonterminals, Symbol.nonterminal?_eq_some]

theorem mem_terminals {p : Production} {t : Terminal} :
    t ∈ p.terminals ↔ Symbol.terminal t ∈ p.rhs := by
  simp [terminals, Symbol.terminal?_eq_some]

theorem isUnit_iff {p : Production} : p.isUnit = true ↔ ∃ a, p.rhs = [.nonterminal a] := by
  unfold isUnit
  split <;> simp_all

theorem terminal?_eq_some {p : Production} {t : Terminal} :
    p.terminal? = some t ↔ p.rhs = [.terminal t] := by
  unfold terminal?
  split <;> simp_all

theorem binary?_eq_some {p : Production} {b c : Nonterminal} :
    p.binary? = some (b, c) ↔ p.rhs = [.nonterminal b, .nonterminal c] := by
  unfold binary?
  split <;> simp_all

end Production

/-- The right-hand sides of the productions for `a`, in order. -/
def alternativesFor (a : Nonterminal) (ps : List Production) : List (List Symbol) :=
  (ps.filter fun p => p.lhs = a).map Production.rhs

/-- The nonterminals of all productions in reading order: of each the left-hand side, then those on
the right. -/
def nonterminalsOf (ps : List Production) : List Nonterminal :=
  ps.flatMap fun p => p.lhs :: p.nonterminals

end GrammarSampler
