import GrammarSampler.Counting.DerivationTable
import GrammarSampler.Sampling.WeightedChoice

/-!
# Generating strings

A generator draws strings of a given length from a grammar in Chomsky normal form, so that all
derivation trees of that length are equally likely: it chooses productions and splits by the number
of derivations behind them.  The parts of the string still to come wait on a stack, the leftmost on
top, so that no recursion depth depends on the length.
-/

namespace GrammarSampler

/-- A part of the string that is still to be derived: from which id, and its length. -/
structure Pending where
  id : Nat
  length : Nat
  deriving DecidableEq

namespace DerivationTable

/-- Chooses a terminal of the id `i`. -/
def chooseTerminal (t : DerivationTable) (i : Nat) (s : Source) :
    Except GenerateError Terminal × Source :=
  let terminals := (t.rulesOf i).terminals
  if terminals = [] then (.error .weightMismatch, s)
  else
    let (k, s) := s.inRange 0 (terminals.length - 1)
    (.ok (terminals.getD k default), s)

/-- Chooses a binary production of the id `i` for a part of length `n`. -/
def choosePair (t : DerivationTable) (i n : Nat) (s : Source) :
    Except GenerateError (Nat × Nat) × Source :=
  match chooseWeighted (t.pairSums i n) (t.entry i n) s with
  | (.ok k, s) => (.ok ((t.rulesOf i).pairs.getD k default), s)
  | (.error e, s) => (.error e, s)

/-- Chooses the length of the left part of a part of length `n`. -/
def chooseSplit (t : DerivationTable) (b c n : Nat) (s : Source) :
    Except GenerateError Nat × Source :=
  match chooseWeighted (t.splitCounts b c n) (t.splitSum b c n) s with
  | (.ok k, s) => (.ok (k + 1), s)
  | (.error e, s) => (.error e, s)

/-- Chooses how to split the part `p` in two. -/
def split (t : DerivationTable) (p : Pending) (s : Source) :
    Except GenerateError (Pending × Pending) × Source :=
  match t.choosePair p.id p.length s with
  | (.error e, s) => (.error e, s)
  | (.ok (b, c), s) =>
    match t.chooseSplit b c p.length s with
    | (.error e, s) => (.error e, s)
    | (.ok k, s) => (.ok (⟨b, k⟩, ⟨c, p.length - k⟩), s)

/-- Derives the pending parts in at most `fuel` steps and adds their terminals to `done`, which is
in reverse order. -/
def derive (t : DerivationTable) :
    Nat → List Pending → List Terminal → Source → Except GenerateError (List Terminal) × Source
  | _, [], done, s => (.ok done.reverse, s)
  | 0, _ :: _, _, s => (.error .weightMismatch, s)
  | fuel + 1, p :: pending, done, s =>
    if p.length = 1 then
      match t.chooseTerminal p.id s with
      | (.error e, s) => (.error e, s)
      | (.ok a, s) => derive t fuel pending (a :: done) s
    else
      match t.split p s with
      | (.error e, s) => (.error e, s)
      | (.ok (left, right), s) => derive t fuel (left :: right :: pending) done s

/-- Derives a string of `n ≥ 1` terminals from the id `i`.  Each terminal takes one step, and each
split another. -/
def deriveString (t : DerivationTable) (i n : Nat) (s : Source) :
    Except GenerateError (List Terminal) × Source :=
  match t.derive (2 * n - 1) [⟨i, n⟩] [] s with
  | (.ok w, s) => if w.length = n then (.ok w, s) else (.error .weightMismatch, s)
  | (.error e, s) => (.error e, s)

end DerivationTable

/-- A grammar with its table of counts and a source of random words. -/
structure Generator where
  grammar : Grammar
  table : DerivationTable
  source : Source

/-- Why a generator cannot be made or prepared. -/
inductive GeneratorError where
  | notChomsky
  | zeroLength
  /-- The counts for this length do not fit into a table. -/
  | tooLong
  deriving DecidableEq

/-- The error in words. -/
def GeneratorError.message : GeneratorError → String
  | notChomsky => "grammar is not in Chomsky Normal Form"
  | zeroLength => "invalid configuration: preprocessing length must be at least 1"
  | tooLong => "derivation counts do not fit into a table"

namespace Generator

/-- The generator of a grammar in Chomsky normal form. -/
def new (g : Grammar) (s : Source) : Except GeneratorError Generator :=
  match DerivationTable.ofGrammar? g with
  | none => .error .notChomsky
  | some t => .ok ⟨g, t, s⟩

/-- Counts the derivations of all lengths up to `n` ahead of time. -/
def preprocess (g : Generator) (n : Nat) : Except GeneratorError Generator :=
  if n = 0 then .error .zeroLength
  else
    match g.table.extend? n with
    | none => .error .tooLong
    | some t => .ok { g with table := t }

/-- The number of derivation trees of `a` with `n` terminals. -/
def count? (g : Generator) (a : Nonterminal) (n : Nat) : Option (Nat × Generator) :=
  (g.table.count? a n).map fun (k, t) => (k, { g with table := t })

/-- The number of derivation trees with `n` terminals that begin with `p`. -/
def countProduction? (g : Generator) (p : Production) (n : Nat) : Option (Nat × Generator) :=
  (g.table.countProduction? p n).map fun (k, t) => (k, { g with table := t })

/-- Generates a string of `n` terminals from `a`. -/
def generateFrom (g : Generator) (a : Nonterminal) (n : Nat) :
    Except GenerateError (List Terminal) × Generator :=
  match g.table.numbering.id? a with
  | none => (.error (.noString n), g)
  | some i =>
    if n = 0 then
      (if (g.table.rulesOf i).hasEmpty then .ok [] else .error (.noString n), g)
    else
      match g.table.extend? n with
      | none => (.error .tooLong, g)
      | some t =>
        if t.entry i n = 0 then (.error (.noString n), { g with table := t })
        else
          let (result, s) := t.deriveString i n g.source
          (result, { g with table := t, source := s })

/-- Generates a string of `n` terminals from the start symbol. -/
def generate (g : Generator) (n : Nat) : Except GenerateError (List Terminal) × Generator :=
  g.generateFrom g.grammar.start n

/-- Generates a string and joins its terminals with `separator`. -/
def generateText (g : Generator) (n : Nat) (separator : String) :
    Except GenerateError String × Generator :=
  let (result, g) := g.generate n
  (result.map fun w => separator.intercalate (w.map Terminal.text), g)

/-- Draws a number from `lo` to `hi` from the source. -/
def drawInRange (g : Generator) (lo hi : Nat) : Nat × Generator :=
  let (k, s) := g.source.inRange lo hi
  (k, { g with source := s })

/-- The next word of the source. -/
def nextWord (g : Generator) : UInt64 × Generator :=
  let (word, s) := g.source.next
  (word, { g with source := s })

end Generator

end GrammarSampler
