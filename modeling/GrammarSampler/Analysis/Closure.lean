import GrammarSampler.Analysis.Numbered

/-!
# Closure of a property under productions

A property of nonterminals spreads from right-hand sides to left-hand sides: when all symbols on the
right have it, so does the nonterminal on the left.  The closure works through a stack of ids that
have the property.  For the id on top it looks once more at the productions on whose right-hand
sides the id occurs, and puts the left-hand sides that gain the property on the stack in turn.  The
empty word (`nullable`) and terminal words (`productive`) are the two properties that normal forms
need.
-/

namespace GrammarSampler

/-- Whether terminals on a right-hand side have the property. -/
inductive TerminalRule where
  /-- No terminal has it. -/
  | lack
  /-- Every terminal has it. -/
  | hold
  deriving DecidableEq

/-! ### Where nonterminals occur -/

/-- The id `symbol` stands on the right-hand side `rhs` of the id `lhs`. -/
structure Occurrence where
  symbol : Nat
  lhs : Nat
  rhs : List Symbol
  deriving DecidableEq

/-- One entry for each occurrence of a numbered nonterminal on the right.  There is none if the
left-hand side has no id. -/
def Production.occurrences (x : Numbering) (p : Production) : List Occurrence :=
  match x.id? p.lhs with
  | none => []
  | some lhs => (p.nonterminals.filterMap x.id?).map fun symbol => ⟨symbol, lhs, p.rhs⟩

/-- Puts `o` before the first entry whose symbol is not less. -/
def insertOccurrence (o : Occurrence) : List Occurrence → List Occurrence
  | [] => [o]
  | o' :: os => if o.symbol ≤ o'.symbol then o :: o' :: os else o' :: insertOccurrence o os

/-- The occurrences in all productions by symbol, those of one symbol in reading order. -/
def occurrences (x : Numbering) (ps : List Production) : List Occurrence :=
  (ps.flatMap (Production.occurrences x)).foldr insertOccurrence []

/-- The occurrences of the id `i`, in a list that is ordered by symbol. -/
def occurrencesOf (i : Nat) (os : List Occurrence) : List Occurrence :=
  (os.dropWhile fun o => o.symbol < i).takeWhile fun o => o.symbol = i

/-! ### Spreading -/

/-- The symbol has the property, when the ids in `s` do. -/
def Numbering.grants (x : Numbering) (terminals : TerminalRule) (s : IdSet) : Symbol → Bool
  | .terminal _ => terminals = .hold
  | .nonterminal a => (x.id? a).any s.has

/-- The ids that have the property so far, and those among them whose occurrences are still to be
looked at. -/
structure Worklist where
  set : IdSet
  stack : List Nat

namespace Worklist

/-- All ids of `s` are still to be looked at, the greatest one first. -/
def ofSet (s : IdSet) : Worklist := ⟨s, s.toList.reverse⟩

/-- Adds the left-hand side at `o`, if it gains the property. -/
def visit (x : Numbering) (terminals : TerminalRule) (w : Worklist) (o : Occurrence) : Worklist :=
  if !w.set.has o.lhs && o.rhs.all (x.grants terminals w.set) then
    ⟨w.set.add o.lhs, o.lhs :: w.stack⟩
  else w

/-- Looks at the occurrences of the id on top of the stack. -/
def step (x : Numbering) (terminals : TerminalRule) (os : List Occurrence) (w : Worklist) :
    Worklist :=
  match w.stack with
  | [] => w
  | i :: stack => (occurrencesOf i os).foldl (visit x terminals) ⟨w.set, stack⟩

/-- The worklist after `n` steps. -/
def run (x : Numbering) (terminals : TerminalRule) (os : List Occurrence) :
    Nat → Worklist → Worklist
  | 0, w => w
  | n + 1, w => run x terminals os n (w.step x terminals os)

end Worklist

/-- The closure of `s`.  Each id is on the stack once at most, so there are no more steps than
ids. -/
def IdSet.closure (s : IdSet) (x : Numbering) (ps : List Production) (terminals : TerminalRule) :
    IdSet :=
  ((Worklist.ofSet s).run x terminals (occurrences x ps) s.size).set

/-- The nonterminals that derive the empty word. -/
def nullableSet (x : Numbering) (ps : List Production) : IdSet :=
  (emptySet x ps).closure x ps .lack

/-- The nonterminals that derive some terminal word. -/
def productiveSet (x : Numbering) (ps : List Production) : IdSet :=
  (terminalOnlySet x ps).closure x ps .hold

end GrammarSampler
