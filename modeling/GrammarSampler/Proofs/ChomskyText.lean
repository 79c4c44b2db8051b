import GrammarSampler.CommandLine.Execution
import GrammarSampler.Proofs.ChomskyShape
import GrammarSampler.Proofs.RoundTrip

/-!
# Normal forms as texts

The normal form of a grammar that was read can be written and read again (`Grammar.toChomsky_read`):
fresh names are letters, so that all its names are identifiers, and it is in Chomsky normal form, so
that a second normalization leaves it as it is.

This needs a production to write.  The normal form has none when the grammar had to be brought to
Chomsky normal form and derives no word: then nothing is left of it, there is nothing to normalize a
second time, and the empty text is no grammar.
-/

namespace GrammarSampler

open Relation

/-! ### Fresh names are identifiers -/

theorem isIdentifier_letterName (i : Nat) : IsIdentifier (letterName i) := by
  have hletter : ∀ k < 26, isIdentifierChar (Char.ofNat ('A'.toNat + k)) = true := by
    decide +kernel
  unfold letterName IsIdentifier
  rw [String.toList_ofList]
  refine ⟨by simp, fun c hc => ?_⟩
  rw [List.eq_of_mem_replicate hc]
  exact hletter _ (Nat.mod_lt i (by omega))

namespace NameSupply

/-- Every name in use can stand as an identifier. -/
def Legible (s : NameSupply) : Prop := ∀ n ∈ s.used, IsIdentifier n

theorem Legible.next {s : NameSupply} (h : s.Legible) : s.next.2.Legible := by
  intro n hn
  rcases mem_used_next.1 hn with rfl | hn
  · exact isIdentifier_letterName _
  · exact h n hn

theorem Legible.draws {s s' : NameSupply} {names : List String} (h : s.Legible)
    (hdraws : s.Draws names s') : s'.Legible := by
  induction names generalizing s with
  | nil =>
    obtain rfl := draws_nil_iff.1 hdraws
    exact h
  | cons name names ih => exact ih h.next (draws_cons_iff.1 hdraws).2

end NameSupply

/-- The nonterminals of the short productions are in use in the end, and so have names that can be
read. -/
theorem isIdentifier_of_mem_binaryProductions {s : NameSupply} {ps : List Production}
    (huses : s.Uses ps) (h : s.Legible) :
    ∀ a ∈ nonterminalsOf (binaryProductions ps s), IsIdentifier a.name := by
  intro a ha
  obtain ⟨names, hintroduces⟩ := binaryForm_introduces ps s
  exact h.draws hintroduces.draws _ (hintroduces.uses huses a ha)

/-! ### Nonterminals through the eliminations -/

section eliminations

variable (ps : List Production) (start : Nonterminal)

theorem nonterminalsOf_eliminateEmpty_subset :
    nonterminalsOf (eliminateEmpty ps start) ⊆ nonterminalsOf ps := by
  intro a ha
  obtain ⟨q, hq, ha⟩ := mem_nonterminalsOf.1 ha
  obtain ⟨⟨p, hp, hlhs, hvar⟩, -⟩ := mem_eliminateEmpty.1 hq
  exact mem_nonterminalsOf.2
    ⟨p, hp, ha.imp hlhs.trans fun ha => (sublist_of_mem_variants hvar).subset ha⟩

theorem nonterminalsOf_eliminateUnits_subset :
    nonterminalsOf (eliminateUnits ps start) ⊆ start :: nonterminalsOf ps := by
  intro a ha
  obtain ⟨q, hq, ha⟩ := mem_nonterminalsOf.1 ha
  obtain ⟨hnames, ⟨b, -, hb, -⟩, -⟩ := mem_eliminateUnits.1 hq
  rcases ha with rfl | ha
  · exact List.mem_cons.2 (mem_names_ofProductions.1 hnames)
  · exact List.mem_cons_of_mem _ (mem_nonterminalsOf.2 ⟨_, hb, .inr ha⟩)

theorem nonterminalsOf_removeUseless_subset :
    nonterminalsOf (removeUseless ps start) ⊆ nonterminalsOf ps := by
  intro a ha
  obtain ⟨q, hq, ha⟩ := mem_nonterminalsOf.1 ha
  exact mem_nonterminalsOf.2 ⟨q, (mem_removeUseless_iff.1 hq).1, ha⟩

theorem nonterminalsOf_chomskyProductions_subset (supply : NameSupply) :
    nonterminalsOf (chomskyProductions start ps supply) ⊆
      start :: nonterminalsOf (binaryProductions ps supply) := by
  rw [chomskyProductions_eq]
  intro a ha
  have hunits := nonterminalsOf_removeUseless_subset _ _ ha
  rcases List.mem_cons.1 (nonterminalsOf_eliminateUnits_subset _ _ hunits) with rfl | ha
  · exact List.mem_cons_self
  · exact List.mem_cons_of_mem _ (nonterminalsOf_eliminateEmpty_subset _ _ ha)

end eliminations

namespace Grammar

variable {g c : Grammar}

/-! ### What is left of a grammar -/

theorem productionsFor_ne_nil {a : Nonterminal} (h : ∃ p ∈ g.productions, p.lhs = a) :
    g.productionsFor a ≠ [] := by
  obtain ⟨p, hp, hlhs⟩ := h
  exact List.ne_nil_of_mem (mem_filter_lhs.2 ⟨hp, hlhs⟩)

/-- Whatever is left, the start symbol has a production: all else is reached from there. -/
theorem exists_start_production (hc : g.toChomsky = .ok c) (hg : g.isChomsky = false)
    (hne : c.productions ≠ []) : ∃ p ∈ c.productions, p.lhs = c.start := by
  obtain ⟨p, hp⟩ := List.exists_mem_of_ne_nil _ hne
  obtain ⟨-, hreach⟩ := useful_toChomsky hc hg p hp p.lhs List.mem_cons_self
  rcases ReflTransGen.cases_head hreach with hstart | ⟨b, ⟨q, hq, hlhs, -⟩, -⟩
  · exact ⟨p, hp, hstart.symm⟩
  · exact ⟨q, hq, hlhs⟩

/-- **Nothing is left** of a grammar that derives no word, unless it is in Chomsky normal form
already. -/
theorem productions_toChomsky_eq_nil_iff (hc : g.toChomsky = .ok c)
    (hsome : g.productionsFor g.start ≠ []) :
    c.productions = [] ↔ g.isChomsky = false ∧ ∀ w, ¬g.Generates w := by
  constructor
  · intro hnil
    refine ⟨?_, fun w hw => ?_⟩
    · rcases toChomsky_eq_ok hc with ⟨-, rfl⟩ | ⟨hg, -⟩
      · exact absurd (by simp [productionsFor, hnil]) hsome
      · exact hg
    · obtain ⟨p, hp, -⟩ := derives_single_iff.1 ((generates_toChomsky_iff hc w).1 hw)
      exact List.not_mem_nil (hnil ▸ hp)
  · rintro ⟨hg, hnone⟩
    by_contra hne
    obtain ⟨p, hp, hstart⟩ := exists_start_production hc hg hne
    obtain ⟨⟨w, hw⟩, -⟩ := useful_toChomsky hc hg p hp p.lhs List.mem_cons_self
    rw [hstart] at hw
    exact hnone w ((generates_toChomsky_iff hc w).2 hw)

/-! ### Writing and reading a normal form -/

/-- The names may be looked at in the order of the productions. -/
theorem legible_of_names (hsome : g.productionsFor g.start ≠ [])
    (hnames : ∀ a ∈ g.start :: nonterminalsOf g.productions, IsIdentifier a.name) : g.Legible :=
  ⟨hsome, fun a ha => hnames a (mem_sortedDistinct.1 ha)⟩

/-- The supply for a grammar whose names can be read has such names only. -/
theorem Legible.supply (h : g.Legible) : g.supply.Legible := by
  intro n hn
  obtain ⟨a, ha, rfl⟩ := List.mem_map.1 (NameSupply.mem_used_ofUsed.1 hn)
  exact h.names a ha

/-- What is left of a grammar that can be written can be written. -/
theorem Legible.toChomsky (h : g.Legible) (hc : g.toChomsky = .ok c) (hne : c.productions ≠ []) :
    c.Legible := by
  rcases toChomsky_eq_ok hc with ⟨-, rfl⟩ | ⟨hg, hstart, hmem⟩
  · exact h
  · have hname : IsIdentifier g.start.name := h.names _ (mem_sortedDistinct.2 List.mem_cons_self)
    have huses : g.supply.Uses g.productions := fun a ha => name_mem_supply (.inr ha)
    refine ⟨productionsFor_ne_nil (exists_start_production hc hg hne), fun a ha => ?_⟩
    rcases List.mem_cons.1 (mem_sortedDistinct.1 ha) with rfl | ha
    · rw [hstart]
      exact hname
    · obtain ⟨p, hp, ha⟩ := mem_nonterminalsOf.1 ha
      have hmade := mem_nonterminalsOf.2 ⟨p, (hmem p).1 hp, ha⟩
      rcases List.mem_cons.1 (nonterminalsOf_chomskyProductions_subset _ _ _ hmade) with rfl | ha
      · exact hname
      · exact isIdentifier_of_mem_binaryProductions huses h.supply a ha

/-- A grammar in Chomsky normal form stays as it is. -/
theorem toChomsky_eq_self (hc : c.isChomsky = true) (hsome : c.productionsFor c.start ≠ []) :
    c.toChomsky = .ok c := by
  unfold Grammar.toChomsky
  rw [if_neg (by simpa using hsome), if_pos hc]

/-- A grammar without productions is written as the empty text, which is no grammar. -/
theorem read_written_of_productions_eq_nil (h : c.productions = []) :
    c.written = "" ∧ read c.written = .error (.parse ⟨.noRules, ⟨1, 1⟩⟩) := by
  have hwritten : c.written = "" := by
    simp [written, chars, lineOrder, h]
  refine ⟨hwritten, ?_⟩
  rw [hwritten]
  have hnone : readProductions [] = .ok [] := by
    rw [readProductions, tokenize]
    rfl
  rw [read_eq, String.toList_empty, hnone]

/-- A text is read from its own bytes. -/
theorem readBytes_toUTF8 (text : String) : readBytes (.ok text.toUTF8) = read text := by
  have hutf8 : String.fromUTF8? text.toUTF8 = some text := dif_pos text.isValidUTF8
  simp only [readBytes, hutf8]

/-- **The normal form of a grammar that was read.**  There is one, and its text is what is printed
for the grammar.  If anything is left of the grammar, the normal form is its own normal form, and
its text is read as an equal grammar.  Nothing is left exactly when the grammar was not in Chomsky
normal form and derives no word; then there is no second normal form, and the text is empty. -/
theorem toChomsky_read {text : String} (h : read text = .ok g) :
    ∃ c, g.toChomsky = .ok c ∧
      (∀ path entropy, (CommandLine.Command.normalForm path).execute (.ok text.toUTF8) entropy =
        .ok ⟨c.written, none⟩) ∧
      (c.productions = [] ↔ g.isChomsky = false ∧ ∀ w, ¬g.Generates w) ∧
      (c.productions ≠ [] → c.toChomsky = .ok c ∧
        ∃ c', read c.written = .ok c' ∧ (c' == c) = true) ∧
      (c.productions = [] → c.toChomsky = .error (.noProductions c.start) ∧ c.written = "" ∧
        read c.written = .error (.parse ⟨.noRules, ⟨1, 1⟩⟩)) := by
  have hlegible := legible_of_read h
  obtain ⟨c, hc⟩ := exists_toChomsky hlegible.start_ne_nil
  refine ⟨c, hc, fun path entropy => ?_,
    productions_toChomsky_eq_nil_iff hc hlegible.start_ne_nil, fun hne => ?_, fun hnil => ?_⟩
  · have hform : CommandLine.normalForm (.ok text.toUTF8) = .ok c := by
      simp only [CommandLine.normalForm, readBytes_toUTF8, h, hc]
    simp only [CommandLine.Command.execute, hform]
    rfl
  · have hwrite := hlegible.toChomsky hc hne
    exact ⟨toChomsky_eq_self (isChomsky_toChomsky hc) hwrite.start_ne_nil,
      c.regrouped, hwrite.read_written, c.regrouped_beq⟩
  · have hstart : c.productionsFor c.start = [] := by simp [productionsFor, hnil]
    exact ⟨toChomsky_of_productionsFor_eq_nil hstart, read_written_of_productions_eq_nil hnil⟩

/-- The repetitions of a letter are read from a text; their normal form stays as it is and is read
from its own text. -/
theorem toChomsky_read_repetitions : read "S -> 'a' S |\n" = .ok repetitions ∧
    ∃ c, repetitions.toChomsky = .ok c ∧ c.toChomsky = .ok c ∧
      ∃ c', read c.written = .ok c' ∧ (c' == c) = true := by
  have hlegible : repetitions.Legible := legible_of_names (by decide) (by decide +kernel)
  have hread : read "S -> 'a' S |\n" = .ok repetitions := hlegible.read_written
  have hempty : repetitions.Generates [] := derives_single_iff.2 ⟨⟨⟨"S"⟩, []⟩, by decide, rfl, .nil⟩
  obtain ⟨c, hc, -, hnil, hform, -⟩ := toChomsky_read hread
  exact ⟨hread, c, hc, hform fun h => (hnil.1 h).2 [] hempty⟩

/-- A nonterminal that derives only itself. -/
def unitLoop : Grammar where
  start := ⟨"S"⟩
  productions := [⟨⟨"S"⟩, [.nonterminal ⟨"S"⟩]⟩]
  nodup := by decide
  defined := by decide

/-- The loop is read from a text, but nothing is left of it: its normal form has no normal form, and
the text of its normal form cannot be read. -/
theorem toChomsky_read_unitLoop : read "S -> S\n" = .ok unitLoop ∧
    ∃ c, unitLoop.toChomsky = .ok c ∧ c.toChomsky = .error (.noProductions ⟨"S"⟩) ∧
      read c.written = .error (.parse ⟨.noRules, ⟨1, 1⟩⟩) := by
  have hlegible : unitLoop.Legible := legible_of_names (by decide) (by decide +kernel)
  have hmade : ∀ s, chomskyProductions unitLoop.start unitLoop.productions s = [] := by
    intro s
    have hbinary : binaryProductions unitLoop.productions s = unitLoop.productions := rfl
    rw [chomskyProductions_eq, hbinary]
    decide +kernel
  obtain ⟨c, hc⟩ := exists_toChomsky hlegible.start_ne_nil
  have hnil : c.productions = [] := by
    rcases toChomsky_eq_ok hc with ⟨hg, -⟩ | ⟨-, -, hmem⟩
    · cases hg
    · refine List.eq_nil_iff_forall_not_mem.2 fun p hp => ?_
      have hp := (hmem p).1 hp
      rw [hmade] at hp
      cases hp
  have hstart : c.productionsFor c.start = [] := by simp [productionsFor, hnil]
  have herror := toChomsky_of_productionsFor_eq_nil hstart
  rw [start_toChomsky hc] at herror
  exact ⟨hlegible.read_written, c, hc, herror, (read_written_of_productions_eq_nil hnil).2⟩

end Grammar

end GrammarSampler
