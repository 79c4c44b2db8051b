import GrammarSampler.Analysis.Numbered
import GrammarSampler.Counting.Total
import GrammarSampler.Grammar.Basic
import GrammarSampler.Number.Word

/-!
# Counting derivations

For a grammar in Chomsky normal form, the table holds the number of derivation trees of every
nonterminal for every number of terminals up to a greatest length.  Each nonterminal has a row, with
one place for each length.  The rows are extended together and in place: first they get zeros for
the new lengths, then the places are filled length by length.  A tree of length `n ≥ 2` splits into
two trees of smaller lengths, so that a place follows from those before it (`fillPlace`).  The count
for the length 0 is that of the empty production; it takes no part in longer trees.

All rows have one capacity, as they grow together.  Where it does not suffice it at least doubles
(`grownCapacity`), so that there may be no room in a table that was extended before for a length
that a new table has room for.
-/

namespace GrammarSampler

/-- The productions of one nonterminal by their form, with ids in place of nonterminals. -/
structure RuleSet where
  terminals : List Terminal
  pairs : List (Nat × Nat)
  hasEmpty : Bool
  deriving DecidableEq, Inhabited

/-- The ids of the two nonterminals of a binary production. -/
def Production.pair? (x : Numbering) (p : Production) : Option (Nat × Nat) :=
  match p.binary? with
  | none => none
  | some (b, c) =>
    match x.id? b, x.id? c with
    | some i, some j => some (i, j)
    | _, _ => none

/-- The productions of `a`. -/
def RuleSet.ofProductions (x : Numbering) (ps : List Production) (a : Nonterminal) : RuleSet :=
  let own := ps.filter fun p => p.lhs = a
  ⟨own.filterMap Production.terminal?, own.filterMap (Production.pair? x),
    own.any Production.isEmpty⟩

/-- The capacity of a row that gets `n` places.  A row that has to grow at least doubles its
capacity, and gets one of at least four. -/
def grownCapacity (capacity n : Nat) : Nat :=
  if n ≤ capacity then capacity else max 4 (max (2 * capacity) n)

/-- The counts of derivations up to some length. -/
structure DerivationTable where
  numbering : Numbering
  /-- The productions of each id. -/
  rules : Array RuleSet
  /-- For each id, the counts for the lengths from 0 on. -/
  rows : Array (Array Nat)
  /-- How many counts a row can hold before it has to grow. -/
  capacity : Nat
  /-- The greatest length with counts. -/
  maxLength : Nat

namespace DerivationTable

/-- The productions of the id `i`. -/
def rulesOf (t : DerivationTable) (i : Nat) : RuleSet := t.rules.getD i default

/-- The counts of the id `i`. -/
def rowOf (t : DerivationTable) (i : Nat) : Array Nat := t.rows.getD i #[]

/-- The count of the id `i` for the length `n`, if there is a place for it. -/
def entry (t : DerivationTable) (i n : Nat) : Nat := (t.rowOf i).getD n 0

/-- The number of derivations of the ids `b` and `c` in a row with `n` terminals, of which `k`
derive from `b`. -/
def splitCount (t : DerivationTable) (b c n k : Nat) : Nat := t.entry b k * t.entry c (n - k)

/-- `splitCount` for `k = 1, …, n - 1`. -/
def splitCounts (t : DerivationTable) (b c n : Nat) : List Nat :=
  (List.range (n - 1)).map fun k => t.splitCount b c n (k + 1)

/-- The number of derivations of the ids `b` and `c` in a row with `n` terminals. -/
def splitSum (t : DerivationTable) (b c n : Nat) : Nat := total (t.splitCounts b c n)

/-- `splitSum` for every binary production of the id `i`. -/
def pairSums (t : DerivationTable) (i n : Nat) : List Nat :=
  (t.rulesOf i).pairs.map fun bc => t.splitSum bc.1 bc.2 n

/-- Gives every row places for the lengths up to `n`.  The new ones hold zeros. -/
def lengthen (t : DerivationTable) (n : Nat) : DerivationTable :=
  { t with
    rows := t.rows.map fun row => row ++ Array.replicate (n + 1 - row.size) 0
    capacity := grownCapacity t.capacity (n + 1) }

/-- Fills the place of an id and a length, from the counts for smaller lengths. -/
def fillPlace (t : DerivationTable) (place : Nat × Nat) : DerivationTable :=
  let count := total (t.pairSums place.1 place.2)
  { t with rows := t.rows.modify place.1 fun row => row.setIfInBounds place.2 count }

/-- The places of all ids for `k` lengths from `m` on, length by length. -/
def places (t : DerivationTable) (m k : Nat) : List (Nat × Nat) :=
  (List.range' m k).flatMap fun n => (List.range t.rules.size).map fun i => (i, n)

/-- Fills the places for the lengths up to `n`. -/
def fillUpTo (t : DerivationTable) (n : Nat) : DerivationTable :=
  (t.places (t.maxLength + 1) (n - t.maxLength)).foldl fillPlace (t.lengthen n)

/-- Adds the counts for the lengths up to `n`, if they are not there yet. -/
def extend (t : DerivationTable) (n : Nat) : DerivationTable :=
  if n ≤ t.maxLength then t else { t.fillUpTo n with maxLength := n }

/-- The table of `g` with the counts for the lengths 0 and 1. -/
def ofGrammar (g : Grammar) : DerivationTable :=
  let x := Numbering.ofProductions g.start g.productions
  let rules := (x.names.map (RuleSet.ofProductions x g.productions)).toArray
  ⟨x, rules, rules.map fun r => #[if r.hasEmpty then 1 else 0, r.terminals.length], 2, 1⟩

/-- The table of a grammar in Chomsky normal form. -/
def ofGrammar? (g : Grammar) : Option DerivationTable :=
  if g.isChomsky then some (ofGrammar g) else none

/-- A copy of the table.  Its rows have just the places that they need. -/
def copy (t : DerivationTable) : DerivationTable := { t with capacity := t.maxLength + 1 }

/-- The counts of `a` for the lengths from 0 to the greatest one. -/
def counts? (t : DerivationTable) (a : Nonterminal) : Option (List Nat) :=
  (t.numbering.id? a).map fun i => (t.rowOf i).toList

/-! ### Queries

A query adds the counts that it needs, and answers with the table that has them.  A row is a
sequence in memory; where its capacity would grow beyond `sequenceLimit` there is no answer.
-/

/-- The rows have places for the lengths up to `n`, or can grow to have them. -/
def Fits (t : DerivationTable) (n : Nat) : Prop := grownCapacity t.capacity (n + 1) ≤ sequenceLimit

instance (t : DerivationTable) (n : Nat) : Decidable (t.Fits n) :=
  inferInstanceAs (Decidable (_ ≤ _))

/-- `extend`, if the counts for the lengths up to `n` fit. -/
def extend? (t : DerivationTable) (n : Nat) : Option DerivationTable :=
  if n ≤ t.maxLength ∨ t.Fits n then some (t.extend n) else none

/-- The number of derivation trees of `a` with `n` terminals.  An unknown nonterminal has none. -/
def count? (t : DerivationTable) (a : Nonterminal) (n : Nat) : Option (Nat × DerivationTable) :=
  match t.numbering.id? a with
  | none => some (0, t)
  | some i => (t.extend? n).map fun t => (t.entry i n, t)

/-- The number of derivation trees with `n` terminals that begin with the binary production from the
id `i` to `bc`. -/
def countPair? (t : DerivationTable) (i : Nat) (bc : Nat × Nat) (n : Nat) :
    Option (Nat × DerivationTable) :=
  if n < 2 ∨ bc ∉ (t.rulesOf i).pairs then some (0, t)
  else (t.extend? n).map fun t => (t.splitSum bc.1 bc.2 n, t)

/-- The number of derivation trees with `n` terminals that begin with `p`.  There is none if `p` is
no production of the grammar. -/
def countProduction? (t : DerivationTable) (p : Production) (n : Nat) :
    Option (Nat × DerivationTable) :=
  match t.numbering.id? p.lhs with
  | none => some (0, t)
  | some i =>
    match p.terminal?, p.binary? with
    | some a, _ => some (if n = 1 ∧ a ∈ (t.rulesOf i).terminals then 1 else 0, t)
    | none, some _ =>
      match p.pair? t.numbering with
      | none => some (0, t)
      | some bc => t.countPair? i bc n
    | none, none => some (if p.isEmpty ∧ n = 0 ∧ (t.rulesOf i).hasEmpty then 1 else 0, t)

end DerivationTable

end GrammarSampler
