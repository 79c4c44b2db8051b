import GrammarSampler.Proofs.ChomskyForm
import GrammarSampler.Proofs.ChomskyTrees

/-!
# The shape of the normal form

A grammar has a normal form exactly when its start symbol has a production, and the error names the
start symbol.  The normal form has the same start symbol, at most one empty production and no new
terminals; unless the grammar was in Chomsky normal form already, all nonterminals of its
productions derive words and are reached from the start symbol (`Grammar.toChomsky_shape`).

No stage brings in a terminal: isolation moves the terminals of right-hand sides to productions of
their own (`Isolation.mem_of_mem_assigned`), and the other stages take right-hand sides apart.
-/

namespace GrammarSampler

open Relation

/-! ### Terminals through the stages -/

/-- Every terminal on a right-hand side of `qs` is one on a right-hand side of `ps`. -/
def NoNewTerminals (ps qs : List Production) : Prop :=
  ∀ q ∈ qs, ∀ t, Symbol.terminal t ∈ q.rhs → ∃ p ∈ ps, Symbol.terminal t ∈ p.rhs

theorem NoNewTerminals.trans {ps qs rs : List Production} (h : NoNewTerminals ps qs)
    (h' : NoNewTerminals qs rs) : NoNewTerminals ps rs := by
  intro r hr t ht
  obtain ⟨q, hq, ht⟩ := h' r hr t ht
  exact h q hq t ht

namespace Isolation

variable {s : Isolation} {ta : Terminal × Nonterminal}

theorem mem_of_mem_standIn {t : Terminal} (h : ta ∈ (s.standIn t).2.assigned) :
    ta ∈ s.assigned ∨ ta.1 = t := by
  unfold standIn at h
  split at h
  · exact .inl h
  · rcases List.mem_append.1 h with h | h
    · exact .inl h
    · rw [List.mem_singleton.1 h]
      exact .inr rfl

/-- A terminal with a nonterminal of its own has one already or is on some right-hand side. -/
theorem mem_of_mem_rewrite {ps : List Production} (h : ta ∈ (s.rewrite ps).2.assigned) :
    ta ∈ s.assigned ∨ ∃ p ∈ ps, Symbol.terminal ta.1 ∈ p.rhs := by
  revert h
  apply rewrite_keeps (P := fun s' => ta ∈ s'.assigned →
    ta ∈ s.assigned ∨ ∃ p ∈ ps, Symbol.terminal ta.1 ∈ p.rhs)
  · intro s' t ht ih h
    rcases mem_of_mem_standIn h with h | h
    · exact ih h
    · rw [h]
      exact .inr ht
  · exact .inl

end Isolation

theorem noNewTerminals_isolateTerminals (ps : List Production) (supply : NameSupply) :
    NoNewTerminals ps (isolateTerminals ps supply).1 := by
  intro q hq t ht
  rcases List.mem_append.1 hq with hq | hq
  · obtain ⟨p, hp, -, ⟨-, hrhs⟩ | ⟨s₀, -, hrhs, -⟩⟩ :=
      Isolation.exists_of_mem_rewrite (Isolation.fresh_init supply) hq
    · exact ⟨p, hp, hrhs ▸ ht⟩
    · obtain ⟨a, ha⟩ := Isolation.eq_nonterminal_of_mem_replace (hrhs ▸ ht)
      cases ha
  · obtain ⟨u, hu, hrhs⟩ := Isolation.mem_introduced.1 hq
    obtain rfl : t = u := by simpa [hrhs] using ht
    rcases Isolation.mem_of_mem_rewrite hu with h | h
    · cases h
    · exact h

theorem mem_of_mem_binaryChain {r : List Symbol} {a : Nonterminal} {s : NameSupply}
    {q : Production} (hq : q ∈ (binaryChain a s r).1) {t : Terminal}
    (ht : Symbol.terminal t ∈ q.rhs) : Symbol.terminal t ∈ r := by
  induction r generalizing a s with
  | nil =>
    rw [List.mem_singleton.1 hq] at ht
    exact ht
  | cons x r ih =>
    rcases r with _ | ⟨y, _ | ⟨z, r⟩⟩
    · rw [List.mem_singleton.1 hq] at ht
      exact ht
    · rw [List.mem_singleton.1 hq] at ht
      exact ht
    · rcases List.mem_cons.1 hq with rfl | hq
      · obtain rfl : Symbol.terminal t = x := by simpa using ht
        exact List.mem_cons_self
      · exact List.mem_cons_of_mem _ (ih hq)

theorem noNewTerminals_binarize (ps : List Production) (s : NameSupply) :
    NoNewTerminals ps (binarize ps s).1 := by
  induction ps generalizing s with
  | nil =>
    intro q hq
    cases hq
  | cons p ps ih =>
    intro q hq t ht
    rcases List.mem_append.1 hq with hq | hq
    · exact ⟨p, List.mem_cons_self, mem_of_mem_binaryChain hq ht⟩
    · obtain ⟨p', hp', ht'⟩ := ih _ q hq t ht
      exact ⟨p', List.mem_cons_of_mem _ hp', ht'⟩

section eliminations

variable (ps : List Production) (start : Nonterminal)

theorem noNewTerminals_eliminateEmpty : NoNewTerminals ps (eliminateEmpty ps start) := by
  intro q hq t ht
  obtain ⟨⟨p, hp, -, hvar⟩, -⟩ := mem_eliminateEmpty.1 hq
  exact ⟨p, hp, (sublist_of_mem_variants hvar).subset ht⟩

theorem noNewTerminals_eliminateUnits : NoNewTerminals ps (eliminateUnits ps start) := by
  intro q hq t ht
  obtain ⟨-, ⟨b, -, hb, -⟩, -⟩ := mem_eliminateUnits.1 hq
  exact ⟨⟨b, q.rhs⟩, hb, ht⟩

theorem noNewTerminals_removeUseless : NoNewTerminals ps (removeUseless ps start) := by
  intro q hq t ht
  exact ⟨q, (mem_removeUseless_iff.1 hq).1, ht⟩

end eliminations

/-- All stages together bring in no terminal. -/
theorem noNewTerminals_chomskyProductions (start : Nonterminal) (ps : List Production)
    (supply : NameSupply) : NoNewTerminals ps (chomskyProductions start ps supply) := by
  have hbinary : NoNewTerminals ps (binaryProductions ps supply) :=
    (noNewTerminals_isolateTerminals ps supply).trans (noNewTerminals_binarize _ _)
  rw [chomskyProductions_eq]
  exact ((hbinary.trans (noNewTerminals_eliminateEmpty _ _)).trans
    (noNewTerminals_eliminateUnits _ _)).trans (noNewTerminals_removeUseless _ _)

/-! ### The normal form of a grammar -/

namespace Grammar

variable {g c : Grammar}

theorem mem_terminals {t : Terminal} :
    t ∈ g.terminals ↔ ∃ p ∈ g.productions, Symbol.terminal t ∈ p.rhs := by
  rw [terminals, mem_sortedDistinct, List.mem_flatMap]
  exact exists_congr fun p => and_congr_right fun _ => Production.mem_terminals

theorem terminals_toChomsky_subset (h : g.toChomsky = .ok c) : c.terminals ⊆ g.terminals := by
  intro t ht
  rcases toChomsky_eq_ok h with ⟨-, rfl⟩ | ⟨-, -, hmem⟩
  · exact ht
  · obtain ⟨q, hq, ht⟩ := mem_terminals.1 ht
    exact mem_terminals.2 (noNewTerminals_chomskyProductions _ _ _ q ((hmem q).1 hq) t ht)

/-- In Chomsky normal form, the only empty production is that of the start symbol. -/
theorem length_filter_isEmpty_le (hg : g.isChomsky = true) :
    (g.productions.filter Production.isEmpty).length ≤ 1 := by
  have hsub : g.productions.filter Production.isEmpty ⊆ [⟨g.start, []⟩] := by
    intro p hp
    obtain ⟨hp, hempty⟩ := List.mem_filter.1 hp
    obtain ⟨a, r⟩ := p
    obtain rfl : r = [] := List.isEmpty_iff.1 hempty
    rcases rhs_cases hg hp with ⟨-, ha⟩ | ⟨t, hr⟩ | ⟨b, d, hr⟩
    · have ha : a = g.start := ha
      simp [ha]
    · cases hr
    · cases hr
  exact (List.subperm_of_subset (g.nodup.filter _) hsub).length_le

/-- A grammar that is brought to Chomsky normal form has only useful productions then. -/
theorem useful_toChomsky (h : g.toChomsky = .ok c) (hg : g.isChomsky = false) :
    ∀ p ∈ c.productions, ∀ a ∈ p.lhs :: p.nonterminals,
      (∃ w, Derives c.productions [.nonterminal a] w) ∧
        ReflTransGen (UsesDirectly c.productions) c.start a := by
  rcases toChomsky_eq_ok h with ⟨hg', -⟩ | ⟨-, hstart, hmem⟩
  · rw [hg] at hg'
    cases hg'
  · intro p hp a ha
    have hp' := (hmem p).1 hp
    rw [chomskyProductions_eq] at hp' hmem
    obtain ⟨⟨w, hw⟩, hreach⟩ := useful_of_mem_removeUseless hp' a ha
    refine ⟨⟨w, (derives_congr hmem).2 hw⟩, ?_⟩
    rw [hstart]
    exact ReflTransGen.mono (usesDirectly_mono fun q => (hmem q).2) _ _ hreach

/-- The stages make a grammar, and it is the normal form. -/
theorem ofProductions_chomskyProductions (h : g.toChomsky = .ok c) (hg : g.isChomsky = false) :
    ofProductions g.start (chomskyProductions g.start g.productions g.supply) = .ok c := by
  unfold toChomsky at h
  split at h
  · cases h
  · simp only [hg, Bool.false_eq_true, if_false] at h
    split at h
    · next c' hc' =>
      cases h
      exact hc'
    · cases h

/-- Without a production of the start symbol there is no normal form, and the error says so. -/
theorem toChomsky_of_productionsFor_eq_nil (h : g.productionsFor g.start = []) :
    g.toChomsky = .error (.noProductions g.start) := by
  unfold toChomsky
  rw [if_pos (by simp [h])]

/-- **The shape of the normal form.**  There is one, unless the start symbol has no production; then
the error names the start symbol.  The normal form is in Chomsky normal form, with the same start
symbol, at most one empty production and no new terminals.  A grammar that is in Chomsky normal form
already is its own; any other one gets what the stages make, in which all nonterminals derive words
and are reached. -/
theorem toChomsky_shape (g : Grammar) :
    (∀ e, g.toChomsky = .error e ↔ g.productionsFor g.start = [] ∧ e = .noProductions g.start) ∧
      (g.productionsFor g.start ≠ [] → ∃ c, g.toChomsky = .ok c ∧ c.isChomsky = true ∧
        c.start = g.start ∧ (c.productions.filter Production.isEmpty).length ≤ 1 ∧
        c.terminals ⊆ g.terminals ∧ (g.isChomsky = true → c = g) ∧
        (g.isChomsky = false →
          ofProductions g.start (chomskyProductions g.start g.productions g.supply) = .ok c ∧
          ∀ p ∈ c.productions, ∀ a ∈ p.lhs :: p.nonterminals,
            (∃ w, Derives c.productions [.nonterminal a] w) ∧
              ReflTransGen (UsesDirectly c.productions) c.start a)) := by
  by_cases hnone : g.productionsFor g.start = []
  · have herror := toChomsky_of_productionsFor_eq_nil hnone
    refine ⟨fun e => ?_, fun hsome => absurd hnone hsome⟩
    simp [herror, hnone, eq_comm]
  · obtain ⟨c, hc⟩ := exists_toChomsky hnone
    have hform := isChomsky_toChomsky hc
    refine ⟨fun e => ?_, fun _ => ⟨c, hc, hform, start_toChomsky hc,
      length_filter_isEmpty_le hform, terminals_toChomsky_subset hc, fun hg => ?_, fun hg => ?_⟩⟩
    · simp [hc, hnone]
    · rcases toChomsky_eq_ok hc with ⟨-, rfl⟩ | ⟨hg', -⟩
      · rfl
      · rw [hg] at hg'
        cases hg'
    · exact ⟨ofProductions_chomskyProductions hc hg, useful_toChomsky hc hg⟩

/-- The repetitions of a letter are not in Chomsky normal form, so that their normal form is what
the stages make, and all of it is useful. -/
theorem toChomsky_shape_repetitions : repetitions.productionsFor repetitions.start ≠ [] ∧
    repetitions.isChomsky = false ∧ ∃ c, repetitions.toChomsky = .ok c ∧
      c.terminals ⊆ repetitions.terminals ∧ ∀ p ∈ c.productions, ∀ a ∈ p.lhs :: p.nonterminals,
        (∃ w, Derives c.productions [.nonterminal a] w) ∧
          ReflTransGen (UsesDirectly c.productions) c.start a := by
  have hsome : repetitions.productionsFor repetitions.start ≠ [] := by decide
  have hform : repetitions.isChomsky = false := by decide
  obtain ⟨c, hc, -, -, -, hterminals, -, huseful⟩ := (toChomsky_shape repetitions).2 hsome
  exact ⟨hsome, hform, c, hc, hterminals, (huseful hform).2⟩

end Grammar
end GrammarSampler
