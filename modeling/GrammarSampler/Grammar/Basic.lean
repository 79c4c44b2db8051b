import GrammarSampler.Grammar.Production

/-!
# Context-free grammars

A grammar is a start symbol and a list of productions without repetitions in which every
nonterminal on a right-hand side has a production of its own.  `Grammar.ofProductions` builds
grammars: it keeps the first of equal productions and names the first nonterminal that has none.
Two grammars are equal when they have the same start symbol and the same productions, in any order.
-/

namespace GrammarSampler

/-- A grammar is immutable; its start symbol may have no production. -/
structure Grammar where
  start : Nonterminal
  /-- The productions, in order of first occurrence. -/
  productions : List Production
  nodup : productions.Nodup
  defined : ∀ p ∈ productions, ∀ a ∈ p.nonterminals, ∃ q ∈ productions, q.lhs = a

/-- Why a list of productions makes no grammar. -/
inductive GrammarError where
  /-- `a` occurs on a right-hand side, but on no left-hand side. -/
  | undefined (a : Nonterminal)
  deriving DecidableEq

/-- The error in words. -/
def GrammarError.message : GrammarError → String
  | undefined a =>
    "malformed grammar: nonterminal `" ++ a.name ++ "` is referenced but has no productions"

/-- The first nonterminal on a right-hand side, in order of productions, that is no left-hand
side. -/
def undefined? (ps : List Production) : Option Nonterminal :=
  (ps.flatMap Production.nonterminals).find? fun a => !ps.any fun p => p.lhs = a

theorem exists_lhs_of_undefined?_eq_none {ps : List Production} (h : undefined? ps = none) :
    ∀ p ∈ ps, ∀ a ∈ p.nonterminals, ∃ q ∈ ps, q.lhs = a := by
  intro p hp a ha
  simpa using List.find?_eq_none.1 h a (List.mem_flatMap.2 ⟨p, hp, ha⟩)

namespace Grammar

/-- The grammar with the start symbol `start` and the productions `ps`. -/
def ofProductions (start : Nonterminal) (ps : List Production) : Except GrammarError Grammar :=
  match h : undefined? ps.eraseDups with
  | some a => .error (.undefined a)
  | none =>
    .ok ⟨start, ps.eraseDups, nodup_eraseDups ps, exists_lhs_of_undefined?_eq_none h⟩

theorem ofProductions_eq_ok {start : Nonterminal} {ps : List Production} {g : Grammar}
    (h : ofProductions start ps = .ok g) :
    g.start = start ∧ ∀ p, p ∈ g.productions ↔ p ∈ ps := by
  unfold ofProductions at h
  split at h
  · cases h
  · cases h
    exact ⟨rfl, fun p => List.mem_eraseDups⟩

theorem exists_ofProductions (start : Nonterminal) {ps : List Production}
    (h : ∀ p ∈ ps, ∀ a ∈ p.nonterminals, ∃ q ∈ ps, q.lhs = a) :
    ∃ g, ofProductions start ps = .ok g := by
  have hnone : undefined? ps.eraseDups = none := by
    refine List.find?_eq_none.2 fun a ha => ?_
    obtain ⟨p, hp, ha⟩ := List.mem_flatMap.1 ha
    obtain ⟨q, hq, hlhs⟩ := h p (List.mem_eraseDups.1 hp) a ha
    simpa using ⟨q, hq, hlhs⟩
  unfold ofProductions
  split
  · next a ha => exact absurd (ha.symm.trans hnone) (Option.some_ne_none a)
  · exact ⟨_, rfl⟩

/-- A grammar is built from its own parts. -/
theorem ofProductions_self (g : Grammar) : ofProductions g.start g.productions = .ok g := by
  have hself := eraseDups_of_nodup g.nodup
  obtain ⟨g', hg'⟩ := exists_ofProductions g.start g.defined
  rw [hg']
  unfold ofProductions at hg'
  split at hg'
  · cases hg'
  · cases hg'
    simp only [hself]

/-- The start symbol and all nonterminals of the productions, in increasing order. -/
def nonterminals (g : Grammar) : List Nonterminal :=
  sortedDistinct (g.start :: nonterminalsOf g.productions)

/-- All terminals on right-hand sides, in increasing order. -/
def terminals (g : Grammar) : List Terminal :=
  sortedDistinct (g.productions.flatMap Production.terminals)

/-- The productions with the left-hand side `a`, in order. -/
def productionsFor (g : Grammar) (a : Nonterminal) : List Production :=
  g.productions.filter fun p => p.lhs = a

/-- A production of Chomsky normal form: to one terminal, to two nonterminals, or from the start
symbol to nothing. -/
def isChomskyProduction (start : Nonterminal) (p : Production) : Bool :=
  if p.isEmpty then p.lhs = start else p.terminal?.isSome || p.binary?.isSome

/-- All productions are in Chomsky normal form. -/
def isChomsky (g : Grammar) : Bool := g.productions.all (isChomskyProduction g.start)

/-- The start symbol has the empty production. -/
def hasEmptyStart (g : Grammar) : Bool := (g.productionsFor g.start).any Production.isEmpty

/-- Neither list of productions has repetitions, so equal lengths and inclusion one way make them
equal as sets. -/
instance : BEq Grammar where
  beq g h := g.start = h.start && g.productions.length = h.productions.length &&
    h.productions.all fun p => p ∈ g.productions

theorem beq_iff {g h : Grammar} : (g == h) = true ↔ g.start = h.start ∧
    g.productions.length = h.productions.length ∧ ∀ p ∈ h.productions, p ∈ g.productions := by
  simp [BEq.beq, and_assoc]

end Grammar

end GrammarSampler
