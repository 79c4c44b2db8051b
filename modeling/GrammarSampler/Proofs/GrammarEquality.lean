import Mathlib.Data.List.Basic
import Mathlib.Data.List.Induction
import Mathlib.Data.List.Perm.Subperm
import GrammarSampler.Grammar.Basic

/-!
# How grammars are built, and which are equal

A list of productions makes a grammar unless some nonterminal on a right-hand side has no production
of its own; then the first such occurrence is named (`ofProductions_eq_error_iff`).  The productions
of the grammar are those of the list in order of first occurrence (`pairwise_idxOf_productions`).

The comparison of two grammars looks for the productions of one in the other, and only compares the
numbers of productions else.  As neither has a production twice, that makes the sets of productions
equal (`beq_iff_forall_mem_iff`), so that the comparison is an equivalence and does not depend on
the order of a list or on its repetitions.  No grammar is built in another way: each one is made of
its own parts (`Grammar.ofProductions_self`).  All of this together is `construction_equality`.
-/

namespace GrammarSampler

/-! ### Lists without their repetitions -/

section repetitions

variable {α β : Type} [DecidableEq α]

/-- One more member is kept if it is new. -/
theorem eraseDups_concat (xs : List α) (x : α) :
    (xs ++ [x]).eraseDups = if x ∈ xs then xs.eraseDups else xs.eraseDups ++ [x] := by
  rw [List.eraseDups_append]
  by_cases hx : x ∈ xs
  · simp [List.removeAll, hx]
  · simp [List.removeAll, hx, List.eraseDups_cons]

/-- What is kept stands in order of first occurrence. -/
theorem pairwise_idxOf_eraseDups (xs : List α) :
    xs.eraseDups.Pairwise fun x y => xs.idxOf x < xs.idxOf y := by
  -- from the end, as first occurrences do not change when a member is added there
  induction xs using List.reverseRecOn with
  | nil => simp
  | append_singleton xs x ih =>
    have hold : ∀ y ∈ xs.eraseDups, (xs ++ [x]).idxOf y = xs.idxOf y := by
      intro y hy
      exact List.idxOf_append_of_mem (List.mem_eraseDups.1 hy)
    have hkept : xs.eraseDups.Pairwise fun y z => (xs ++ [x]).idxOf y < (xs ++ [x]).idxOf z := by
      refine ih.imp_of_mem fun hy hz hlt => ?_
      rwa [hold _ hy, hold _ hz]
    rw [eraseDups_concat]
    split
    · exact hkept
    · next hx =>
      refine List.pairwise_append.2 ⟨hkept, by simp, ?_⟩
      intro y hy z hz
      obtain rfl := List.mem_singleton.1 hz
      rw [hold y hy, List.idxOf_append_of_notMem hx]
      have hlt := List.idxOf_lt_length_of_mem (List.mem_eraseDups.1 hy)
      omega

/-- The first member with a value is kept. -/
theorem findSome?_eraseDups (f : α → Option β) (xs : List α) :
    xs.eraseDups.findSome? f = xs.findSome? f := by
  induction xs using List.reverseRecOn with
  | nil => simp
  | append_singleton xs x ih =>
    rw [eraseDups_concat, List.findSome?_append]
    split
    · next hx =>
      rw [ih]
      cases hfirst : xs.findSome? f with
      | some b => rfl
      | none => simp [List.findSome?_eq_none_iff.1 hfirst x hx]
    · rw [List.findSome?_append, ih]

end repetitions

/-! ### Nonterminals without productions -/

/-- The nonterminal `a` has a production. -/
def IsDefined (ps : List Production) (a : Nonterminal) : Prop := ∃ q ∈ ps, q.lhs = a

/-- **The first nonterminal without productions**: `a` has none and stands on a right-hand side,
and whatever stands on the right before, in this production or in an earlier one, has some. -/
def FirstUndefined (ps : List Production) (a : Nonterminal) : Prop :=
  ¬IsDefined ps a ∧ ∃ before p after left right, ps = before ++ p :: after ∧
    p.rhs = left ++ .nonterminal a :: right ∧
    (∀ q ∈ before, ∀ b, .nonterminal b ∈ q.rhs → IsDefined ps b) ∧
    ∀ b, .nonterminal b ∈ left → IsDefined ps b

variable {ps : List Production} {start a : Nonterminal}

/-- The first nonterminal without productions on one right-hand side. -/
def Production.undefined? (ps : List Production) (p : Production) : Option Nonterminal :=
  p.nonterminals.find? fun a => !ps.any fun q => q.lhs = a

theorem not_any_lhs_iff : (!ps.any fun q => q.lhs = a) = true ↔ ¬IsDefined ps a := by
  simp [IsDefined]

theorem Production.undefined?_eq_none_iff {p : Production} :
    p.undefined? ps = none ↔ ∀ b, .nonterminal b ∈ p.rhs → IsDefined ps b := by
  simp only [undefined?, List.find?_eq_none, mem_nonterminals, not_any_lhs_iff, not_not]

theorem Production.undefined?_eq_some_iff {p : Production} : p.undefined? ps = some a ↔
    ¬IsDefined ps a ∧ ∃ left right, p.rhs = left ++ .nonterminal a :: right ∧
      ∀ b, .nonterminal b ∈ left → IsDefined ps b := by
  rw [undefined?, nonterminals, List.find?_filterMap, Option.bind_eq_some_iff]
  constructor
  · rintro ⟨s, hs, hsa⟩
    obtain rfl := Symbol.nonterminal?_eq_some.1 hsa
    obtain ⟨ha, left, right, hrhs, hleft⟩ := List.find?_eq_some_iff_append.1 hs
    refine ⟨not_any_lhs_iff.1 ha, left, right, hrhs, fun b hb => ?_⟩
    by_contra hundefined
    have hpass := hleft _ hb
    simp [Symbol.nonterminal?, not_any_lhs_iff.2 hundefined] at hpass
  · rintro ⟨ha, left, right, hrhs, hleft⟩
    refine ⟨.nonterminal a, List.find?_eq_some_iff_append.2 ⟨?_, left, right, hrhs, ?_⟩, rfl⟩
    · exact not_any_lhs_iff.2 ha
    · intro s hs
      cases s with
      | terminal t => rfl
      | nonterminal b =>
        have hb := hleft b hs
        simp [Symbol.nonterminal?, IsDefined] at hb ⊢
        exact hb

theorem undefined?_eq_findSome? : undefined? ps = ps.findSome? (Production.undefined? ps) :=
  List.find?_flatMap

theorem undefined?_eq_some_iff : undefined? ps = some a ↔ FirstUndefined ps a := by
  rw [undefined?_eq_findSome?, List.findSome?_eq_some_iff]
  constructor
  · rintro ⟨before, p, after, hps, hp, hbefore⟩
    obtain ⟨ha, left, right, hrhs, hleft⟩ := Production.undefined?_eq_some_iff.1 hp
    refine ⟨ha, before, p, after, left, right, hps, hrhs, ?_, hleft⟩
    intro q hq
    exact Production.undefined?_eq_none_iff.1 (hbefore q hq)
  · rintro ⟨ha, before, p, after, left, right, hps, hrhs, hbefore, hleft⟩
    refine ⟨before, p, after, hps, ?_, ?_⟩
    · exact Production.undefined?_eq_some_iff.2 ⟨ha, left, right, hrhs, hleft⟩
    · intro q hq
      exact Production.undefined?_eq_none_iff.2 (hbefore q hq)

/-- The search does not need the repetitions. -/
theorem undefined?_eraseDups (ps : List Production) : undefined? ps.eraseDups = undefined? ps := by
  have hany (a : Nonterminal) :
      (ps.eraseDups.any fun q => q.lhs = a) = ps.any fun q => q.lhs = a := by
    rw [Bool.eq_iff_iff, List.any_eq_true, List.any_eq_true]
    simp only [List.mem_eraseDups]
  have hsame : Production.undefined? ps.eraseDups = Production.undefined? ps := by
    funext p
    simp only [Production.undefined?, hany]
  rw [undefined?_eq_findSome?, undefined?_eq_findSome?, hsame, findSome?_eraseDups]

namespace Grammar

variable {g h : Grammar}

/-! ### Building -/

/-- A list makes no grammar exactly if a nonterminal has no productions, and the first one is
named. -/
theorem ofProductions_eq_error_iff :
    ofProductions start ps = .error (.undefined a) ↔ FirstUndefined ps a := by
  rw [← undefined?_eq_some_iff, ← undefined?_eraseDups]
  unfold ofProductions
  split
  · next b hb => simp [hb]
  · next hnone => simp [hnone]

theorem exists_error_iff (start : Nonterminal) (ps : List Production) :
    (∃ e, ofProductions start ps = .error e) ↔
      ∃ p ∈ ps, ∃ a, .nonterminal a ∈ p.rhs ∧ ¬IsDefined ps a := by
  constructor
  · rintro ⟨⟨a⟩, he⟩
    obtain ⟨ha, before, p, after, left, right, hps, hrhs, -⟩ := ofProductions_eq_error_iff.1 he
    refine ⟨p, ?_, a, ?_, ha⟩
    · simp [hps]
    · simp [hrhs]
  · rintro ⟨p, hp, a, ha, hundefined⟩
    cases hresult : ofProductions start ps with
    | error e => exact ⟨e, rfl⟩
    | ok g =>
      obtain ⟨-, hmem⟩ := ofProductions_eq_ok hresult
      obtain ⟨q, hq, hlhs⟩ := g.defined p ((hmem p).2 hp) a (Production.mem_nonterminals.2 ha)
      exact absurd ⟨q, (hmem q).1 hq, hlhs⟩ hundefined

theorem productions_ofProductions (hg : ofProductions start ps = .ok g) :
    g.productions = ps.eraseDups := by
  unfold ofProductions at hg
  split at hg
  · cases hg
  · cases hg
    rfl

/-- The productions stand in order of first occurrence. -/
theorem pairwise_idxOf_productions (hg : ofProductions start ps = .ok g) :
    g.productions.Pairwise fun p q => ps.idxOf p < ps.idxOf q := by
  rw [productions_ofProductions hg]
  exact pairwise_idxOf_eraseDups ps

theorem nodup_nonterminals (g : Grammar) : g.nonterminals.Nodup :=
  (List.mergeSort_perm _ _).nodup_iff.2 (nodup_eraseDups _)

theorem nodup_terminals (g : Grammar) : g.terminals.Nodup :=
  (List.mergeSort_perm _ _).nodup_iff.2 (nodup_eraseDups _)

theorem mem_nonterminals_iff (hg : ofProductions start ps = .ok g) :
    a ∈ g.nonterminals ↔ a = start ∨ ∃ p ∈ ps, a = p.lhs ∨ .nonterminal a ∈ p.rhs := by
  obtain ⟨rfl, hmem⟩ := ofProductions_eq_ok hg
  simp only [nonterminals, mem_sortedDistinct, List.mem_cons, nonterminalsOf, List.mem_flatMap,
    hmem, Production.mem_nonterminals]

theorem mem_terminals_iff (hg : ofProductions start ps = .ok g) {t : Terminal} :
    t ∈ g.terminals ↔ ∃ p ∈ ps, .terminal t ∈ p.rhs := by
  simp only [terminals, mem_sortedDistinct, List.mem_flatMap, (ofProductions_eq_ok hg).2,
    Production.mem_terminals]

/-! ### Comparing -/

/-- **Equal grammars have the same set of productions**: where no production is repeated, as many
productions that are found one way are found both ways. -/
theorem beq_iff_forall_mem_iff :
    (g == h) = true ↔ g.start = h.start ∧ ∀ p, p ∈ g.productions ↔ p ∈ h.productions := by
  rw [beq_iff]
  refine and_congr_right fun _ => ?_
  constructor
  · rintro ⟨hlength, hsubset⟩ p
    -- no production is repeated, so there is no room for others
    have hperm : h.productions.Perm g.productions :=
      (List.subperm_of_subset h.nodup hsubset).perm_of_length_le (Nat.le_of_eq hlength)
    exact hperm.mem_iff.symm
  · intro hmem
    have hperm := (List.perm_ext_iff_of_nodup g.nodup h.nodup).2 hmem
    exact ⟨hperm.length_eq, fun p hp => (hmem p).2 hp⟩

theorem beq_equivalence : Equivalence fun g h : Grammar => (g == h) = true where
  refl g := beq_iff_forall_mem_iff.2 ⟨rfl, fun _ => Iff.rfl⟩
  symm hgh := by
    obtain ⟨hstart, hmem⟩ := beq_iff_forall_mem_iff.1 hgh
    exact beq_iff_forall_mem_iff.2 ⟨hstart.symm, fun p => (hmem p).symm⟩
  trans hgh hhk := by
    obtain ⟨hstart, hmem⟩ := beq_iff_forall_mem_iff.1 hgh
    obtain ⟨hstart', hmem'⟩ := beq_iff_forall_mem_iff.1 hhk
    exact beq_iff_forall_mem_iff.2 ⟨hstart.trans hstart', fun p => (hmem p).trans (hmem' p)⟩

/-- Grammars of two lists are equal exactly if the lists have the same members. -/
theorem beq_ofProductions_iff {start' : Nonterminal} {qs : List Production}
    (hg : ofProductions start ps = .ok g) (hh : ofProductions start' qs = .ok h) :
    (g == h) = true ↔ start = start' ∧ ∀ p, p ∈ ps ↔ p ∈ qs := by
  obtain ⟨rfl, hps⟩ := ofProductions_eq_ok hg
  obtain ⟨rfl, hqs⟩ := ofProductions_eq_ok hh
  simp only [beq_iff_forall_mem_iff, hps, hqs]

/-- **Building and comparing grammars.**  A list of productions makes no grammar exactly if some
nonterminal on a right-hand side has no production, and the first one is named.  Otherwise the
grammar has the productions of the list, each once and in order of first occurrence, the start
symbol and all nonterminals that occur, and all terminals that occur.  Every grammar is built in
this way.  Two grammars are equal exactly if they have the same start symbol and the same set of
productions, so this is an equivalence; and for grammars of two lists it does not depend on the
order of the lists and their repetitions. -/
theorem construction_equality (start : Nonterminal) (ps : List Production) :
    (∀ a, ofProductions start ps = .error (.undefined a) ↔ FirstUndefined ps a) ∧
    ((∃ e, ofProductions start ps = .error e) ↔
      ∃ p ∈ ps, ∃ a, .nonterminal a ∈ p.rhs ∧ ∀ q ∈ ps, q.lhs ≠ a) ∧
    (∀ g, ofProductions start ps = .ok g →
      g.start = start ∧ g.productions.Nodup ∧ (∀ p, p ∈ g.productions ↔ p ∈ ps) ∧
      g.productions.Pairwise (fun p q => ps.idxOf p < ps.idxOf q) ∧
      g.nonterminals.Nodup ∧
      (∀ a, a ∈ g.nonterminals ↔ a = start ∨ ∃ p ∈ ps, a = p.lhs ∨ .nonterminal a ∈ p.rhs) ∧
      g.terminals.Nodup ∧ (∀ t, t ∈ g.terminals ↔ ∃ p ∈ ps, .terminal t ∈ p.rhs)) ∧
    (∀ g : Grammar, ofProductions g.start g.productions = .ok g) ∧
    (∀ g h : Grammar, (g == h) = true ↔
      g.start = h.start ∧ ∀ p, p ∈ g.productions ↔ p ∈ h.productions) ∧
    (Equivalence fun g h : Grammar => (g == h) = true) ∧
    ∀ start' qs g h, ofProductions start ps = .ok g → ofProductions start' qs = .ok h →
      ((g == h) = true ↔ start = start' ∧ ∀ p, p ∈ ps ↔ p ∈ qs) := by
  refine ⟨fun a => ofProductions_eq_error_iff, ?_, ?_, ofProductions_self,
    fun g h => beq_iff_forall_mem_iff, beq_equivalence, ?_⟩
  · simpa [IsDefined] using exists_error_iff start ps
  · intro g hg
    obtain ⟨hstart, hmem⟩ := ofProductions_eq_ok hg
    exact ⟨hstart, g.nodup, hmem, pairwise_idxOf_productions hg, g.nodup_nonterminals,
      fun a => mem_nonterminals_iff hg, g.nodup_terminals, fun t => mem_terminals_iff hg⟩
  · intro start' qs g h hg hh
    exact beq_ofProductions_iff hg hh

/-- Pairs of letters, with a repetition and with its rules interleaved. -/
def pairings : List Production :=
  [⟨⟨"S"⟩, [.nonterminal ⟨"A"⟩, .nonterminal ⟨"B"⟩]⟩, ⟨⟨"A"⟩, [.terminal ⟨"a"⟩]⟩,
    ⟨⟨"S"⟩, [.nonterminal ⟨"A"⟩, .nonterminal ⟨"B"⟩]⟩, ⟨⟨"B"⟩, [.terminal ⟨"b"⟩]⟩,
    ⟨⟨"A"⟩, [.terminal ⟨"b"⟩]⟩]

/-- A list and its reverse make equal grammars, whose productions stand in different orders; without
the rules of two nonterminals, the first of these is named. -/
theorem construction_equality_pairings :
    (∃ g h, ofProductions ⟨"S"⟩ pairings = .ok g ∧ ofProductions ⟨"S"⟩ pairings.reverse = .ok h ∧
      g.productions.length = 4 ∧ g.productions ≠ h.productions ∧ (g == h) = true ∧
      (h == g) = true ∧ ⟨"B"⟩ ∈ g.nonterminals ∧ ⟨"b"⟩ ∈ g.terminals) ∧
    ofProductions ⟨"S"⟩ (pairings.take 1) = .error (.undefined ⟨"A"⟩) := by
  obtain ⟨g, hg⟩ : ∃ g, ofProductions ⟨"S"⟩ pairings = .ok g := exists_ofProductions _ (by decide)
  obtain ⟨h, hh⟩ : ∃ h, ofProductions ⟨"S"⟩ pairings.reverse = .ok h :=
    exists_ofProductions _ (by decide)
  obtain ⟨-, -, hbuilt, -, -, hequal, hlists⟩ := construction_equality ⟨"S"⟩ pairings
  obtain ⟨-, -, -, -, -, hnonterminals, -, hterminals⟩ := hbuilt g hg
  have hsame : (g == h) = true := (hlists ⟨"S"⟩ _ g h hg hh).2 ⟨rfl, by simp⟩
  refine ⟨⟨g, h, hg, hh, ?_, ?_, hsame, hequal.symm hsame, ?_, ?_⟩, ?_⟩
  · rw [productions_ofProductions hg]
    decide
  · rw [productions_ofProductions hg, productions_ofProductions hh]
    decide
  · exact (hnonterminals ⟨"B"⟩).2 (by decide)
  · exact (hterminals ⟨"b"⟩).2 (by decide)
  · refine ((construction_equality ⟨"S"⟩ (pairings.take 1)).1 ⟨"A"⟩).2 ⟨?_, ?_⟩
    · simp [IsDefined, pairings]
    · exact ⟨[], _, [], [], [.nonterminal ⟨"B"⟩], rfl, rfl, by simp, by simp⟩

end Grammar

end GrammarSampler
