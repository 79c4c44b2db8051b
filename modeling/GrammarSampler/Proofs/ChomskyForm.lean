import GrammarSampler.NormalForm.Chomsky
import GrammarSampler.Proofs.BinaryForm
import GrammarSampler.Proofs.EmptyElimination
import GrammarSampler.Proofs.UnitElimination
import GrammarSampler.Proofs.UselessRemoval

/-!
# Chomsky normal form keeps the language

The stages are put together: isolation and binarization keep the trees, and the eliminations keep
the words of the start symbol (`derives_chomskyProductions_iff`).  Every word but the empty one is
derived without empty productions in the end (`derives_nonempty_chomskyProductions`), which is what
the counting of trees relies on.

The normal form exists for every grammar whose start symbol has a production, and is in Chomsky
normal form (`Grammar.exists_toChomsky`); it has the same language (`Grammar.toChomsky_language`).
-/

namespace GrammarSampler

/-! ### The stages together -/

section stages

variable {start : Nonterminal} {ps : List Production} {supply : NameSupply}

/-- The productions with short right-hand sides, from which the eliminations start. -/
def binaryProductions (ps : List Production) (supply : NameSupply) : List Production :=
  (binarize (isolateTerminals ps supply).1 (isolateTerminals ps supply).2).1

theorem chomskyProductions_eq : chomskyProductions start ps supply =
    removeUseless (eliminateUnits (eliminateEmpty (binaryProductions ps supply) start) start)
      start := rfl

variable (hnodup : ps.Nodup) (huses : supply.Uses ps) (hstart : start.name ∈ supply.used)
include hnodup huses hstart

theorem derives_binaryProductions_iff {w : List Terminal} :
    Derives (binaryProductions ps supply) [.nonterminal start] w ↔
      Derives ps [.nonterminal start] w :=
  ((binaryForm_rewrites hnodup huses).sameTrees.derives_iff hstart).symm

theorem derives_nonempty_chomskyProductions {w : List Terminal}
    (h : Derives ps [.nonterminal start] w) (hw : w ≠ []) :
    Derives (nonempty (chomskyProductions start ps supply)) [.nonterminal start] w := by
  have hbinary := (derives_binaryProductions_iff hnodup huses hstart).2 h
  have hempty := derives_nonempty_eliminateEmpty start hbinary hw
  exact derives_nonempty_removeUseless (derives_nonempty_eliminateUnits hempty)

theorem derives_chomskyProductions_iff {w : List Terminal} :
    Derives (chomskyProductions start ps supply) [.nonterminal start] w ↔
      Derives ps [.nonterminal start] w := by
  constructor
  · intro h
    rw [chomskyProductions_eq, derives_removeUseless_iff] at h
    have hbinary := derives_of_derives_eliminateEmpty (derives_of_derives_eliminateUnits h)
    exact (derives_binaryProductions_iff hnodup huses hstart).1 hbinary
  · intro h
    by_cases hw : w = []
    · subst hw
      have hbinary := (derives_binaryProductions_iff hnodup huses hstart).2 h
      have hempty := empty_mem_eliminateEmpty_iff.2 hbinary
      have hunits := mem_eliminateUnits_of_mem start hempty rfl (.inr rfl)
      rw [chomskyProductions_eq, derives_removeUseless_iff]
      exact derives_single_iff.2 ⟨_, hunits, rfl, .nil⟩
    · exact (derives_nonempty_chomskyProductions hnodup huses hstart h hw).of_nonempty

end stages

/-! ### The form of the productions -/

theorem sublist_of_mem_variants {optional : Symbol → Bool} {r r' : List Symbol}
    (h : r' ∈ variants optional r) : r'.Sublist r := by
  induction r generalizing r' with
  | nil => rw [List.mem_singleton.1 h]
  | cons y r ih =>
    rcases mem_variants_cons.1 h with ⟨s, hs, rfl⟩ | ⟨-, h⟩
    · exact (ih hs).cons_cons y
    · exact (ih h).cons y

theorem IsShort.sublist {r r' : List Symbol} (hr : IsShort r) (h : r'.Sublist r) : IsShort r' := by
  rcases Nat.lt_or_ge r'.length 2 with hlt | hge
  · exact .inl hlt
  · rcases hr with hr | ⟨b, c, rfl⟩
    · exact absurd h.length_le (by omega)
    · exact .inr ⟨b, c, h.eq_of_length_le hge⟩

/-- A short right-hand side that is not a unit, and empty for the start symbol only, is that of a
production in Chomsky normal form. -/
theorem isChomskyProduction_of_isShort {start : Nonterminal} {p : Production} (hr : IsShort p.rhs)
    (hunit : p.isUnit = false) (hempty : p.rhs ≠ [] ∨ p.lhs = start) :
    Grammar.isChomskyProduction start p = true := by
  obtain ⟨a, r⟩ := p
  rcases r with _ | ⟨y, r⟩
  · simpa [Grammar.isChomskyProduction, Production.isEmpty] using hempty
  · rcases hr with hlen | ⟨b, c, hr⟩
    · rw [List.length_cons] at hlen
      obtain rfl : r = [] := List.length_eq_zero_iff.1 (by omega)
      cases y with
      | terminal t => rfl
      | nonterminal b => cases hunit
    · cases hr
      rfl

theorem isChomskyProduction_of_mem {start : Nonterminal} {ps : List Production}
    {supply : NameSupply} {p : Production} (hp : p ∈ chomskyProductions start ps supply) :
    Grammar.isChomskyProduction start p = true := by
  rw [chomskyProductions_eq] at hp
  obtain ⟨-, ⟨b, -, hb, hunit⟩, hempty⟩ := mem_eliminateUnits.1 (mem_removeUseless_iff.1 hp).1
  obtain ⟨⟨q, hq, -, hvar⟩, -⟩ := mem_eliminateEmpty.1 hb
  have hshort := (isShort_of_mem_binaryForm hq).sublist (sublist_of_mem_variants hvar)
  exact isChomskyProduction_of_isShort hshort hunit hempty

/-! ### The normal form of a grammar -/

namespace Grammar

/-- The supply of names for a grammar: the names of its nonterminals are in use. -/
def supply (g : Grammar) : NameSupply := NameSupply.ofUsed (g.nonterminals.map Nonterminal.name)

theorem name_mem_supply {g : Grammar} {a : Nonterminal}
    (ha : a = g.start ∨ a ∈ nonterminalsOf g.productions) : a.name ∈ g.supply.used := by
  refine NameSupply.mem_used_ofUsed.2 (List.mem_map_of_mem ?_)
  exact mem_sortedDistinct.2 (List.mem_cons.2 ha)

/-- The normal form of a grammar is the grammar itself, or has the productions that the stages
make. -/
theorem toChomsky_eq_ok {g c : Grammar} (h : g.toChomsky = .ok c) :
    g.isChomsky = true ∧ c = g ∨ g.isChomsky = false ∧ c.start = g.start ∧
      ∀ p, p ∈ c.productions ↔ p ∈ chomskyProductions g.start g.productions g.supply := by
  unfold toChomsky at h
  split at h
  · cases h
  · split at h
    · next hg => exact .inl ⟨hg, (Except.ok.inj h).symm⟩
    · next hg =>
      simp only at h
      split at h
      · next c' hc' =>
        obtain rfl := Except.ok.inj h
        exact .inr ⟨by simpa using hg, ofProductions_eq_ok hc'⟩
      · cases h

theorem derives_congr {ps qs : List Production} (h : ∀ p, p ∈ ps ↔ p ∈ qs) {r : List Symbol}
    {w : List Terminal} : Derives ps r w ↔ Derives qs r w :=
  ⟨fun hd => hd.mono fun p hp => (h p).1 hp, fun hd => hd.mono fun p hp => (h p).2 hp⟩

/-- A grammar that is not in Chomsky normal form derives all its words but the empty one without
empty productions when it is brought there. -/
theorem derives_nonempty_of_toChomsky {g c : Grammar} (h : g.toChomsky = .ok c)
    (hg : g.isChomsky = false) {w : List Terminal} (hw : g.Generates w) (hne : w ≠ []) :
    Derives (nonempty c.productions) [.nonterminal c.start] w := by
  rcases toChomsky_eq_ok h with ⟨hg', -⟩ | ⟨-, hstart, hmem⟩
  · rw [hg] at hg'
    cases hg'
  · rw [hstart]
    have hd := derives_nonempty_chomskyProductions g.nodup (fun a ha => name_mem_supply (.inr ha))
      (name_mem_supply (.inl rfl)) hw hne
    exact hd.mono fun p hp =>
      mem_nonempty.2 ⟨(hmem p).2 (mem_nonempty.1 hp).1, (mem_nonempty.1 hp).2⟩

theorem generates_toChomsky_iff {g c : Grammar} (h : g.toChomsky = .ok c) (w : List Terminal) :
    g.Generates w ↔ c.Generates w := by
  rcases toChomsky_eq_ok h with ⟨-, rfl⟩ | ⟨-, hstart, hmem⟩
  · exact Iff.rfl
  · rw [Generates, Generates, hstart, derives_congr hmem]
    exact (derives_chomskyProductions_iff g.nodup (fun a ha => name_mem_supply (.inr ha))
      (name_mem_supply (.inl rfl))).symm

theorem start_toChomsky {g c : Grammar} (h : g.toChomsky = .ok c) : c.start = g.start := by
  rcases toChomsky_eq_ok h with ⟨-, rfl⟩ | ⟨-, hstart, -⟩
  · rfl
  · exact hstart

theorem isChomsky_toChomsky {g c : Grammar} (h : g.toChomsky = .ok c) : c.isChomsky = true := by
  rcases toChomsky_eq_ok h with ⟨hg, rfl⟩ | ⟨-, hstart, hmem⟩
  · exact hg
  · refine List.all_eq_true.2 fun p hp => ?_
    rw [hstart]
    exact isChomskyProduction_of_mem ((hmem p).1 hp)

/-- A grammar whose start symbol has a production has a normal form. -/
theorem exists_toChomsky {g : Grammar} (h : g.productionsFor g.start ≠ []) :
    ∃ c, g.toChomsky = .ok c := by
  unfold toChomsky
  rw [if_neg (by simpa using h)]
  split
  · exact ⟨g, rfl⟩
  · have hdefined : ∀ p ∈ chomskyProductions g.start g.productions g.supply, ∀ a ∈ p.nonterminals,
        ∃ q ∈ chomskyProductions g.start g.productions g.supply, q.lhs = a :=
      fun _ hp _ ha => exists_lhs_mem_removeUseless hp ha
    obtain ⟨c, hc⟩ := exists_ofProductions g.start hdefined
    exact ⟨c, by rw [supply] at hc; simp only [hc]⟩

/-- **The normal form has the same language.** -/
theorem toChomsky_language {g c : Grammar} (h : g.toChomsky = .ok c) :
    c.start = g.start ∧ ∀ w, g.Generates w ↔ c.Generates w :=
  ⟨start_toChomsky h, generates_toChomsky_iff h⟩

/-- The words that repeat one letter, written with a production that is not in Chomsky normal form
and an empty one. -/
def repetitions : Grammar where
  start := ⟨"S"⟩
  productions := [⟨⟨"S"⟩, [.terminal ⟨"a"⟩, .nonterminal ⟨"S"⟩]⟩, ⟨⟨"S"⟩, []⟩]
  nodup := by decide
  defined := by decide

/-- The normal form of `repetitions`. -/
def repetitionsForm : Grammar where
  start := ⟨"S"⟩
  productions := [⟨⟨"S"⟩, [.nonterminal ⟨"A"⟩, .nonterminal ⟨"S"⟩]⟩, ⟨⟨"S"⟩, []⟩,
    ⟨⟨"S"⟩, [.terminal ⟨"a"⟩]⟩, ⟨⟨"A"⟩, [.terminal ⟨"a"⟩]⟩]
  nodup := by decide
  defined := by decide

theorem toChomsky_repetitions : repetitions.toChomsky = .ok repetitionsForm := by
  -- the sorting of the nonterminals does not compute, but there is only one
  have hnames : repetitions.nonterminals = [⟨"S"⟩] := by
    unfold nonterminals sortedDistinct
    rw [show (repetitions.start :: nonterminalsOf repetitions.productions).eraseDups = [⟨"S"⟩] by
      decide]
    exact List.mergeSort_singleton ..
  have hform : chomskyProductions repetitions.start repetitions.productions
      (NameSupply.ofUsed (repetitions.nonterminals.map Nonterminal.name)) =
        repetitionsForm.productions := by
    rw [hnames]
    decide +kernel
  unfold toChomsky
  simp only [hform]
  rfl

/-- The repetitions of a letter and their normal form, where the empty word stays although the
start symbol recurs. -/
theorem toChomsky_language_repetitions : repetitions.toChomsky = .ok repetitionsForm ∧
    repetitionsForm.start = repetitions.start ∧
      ∀ w, repetitions.Generates w ↔ repetitionsForm.Generates w :=
  ⟨toChomsky_repetitions, toChomsky_language toChomsky_repetitions⟩

end Grammar

end GrammarSampler
