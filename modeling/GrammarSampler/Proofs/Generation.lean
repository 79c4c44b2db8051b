import GrammarSampler.Proofs.ChomskyForm
import GrammarSampler.Proofs.TreeDrawing

/-!
# What is generated of a language

A generator yields the word of some tree of the length asked for, or reports that there is no tree
(`generateFrom_cases`).  Trees with leaves apply no empty production, and normalization derives
every word but the empty one without such productions; so a grammar that has to be brought to
Chomsky normal form gets a word of its language whenever there is one of the length
(`generate_toChomsky`).

A grammar in Chomsky normal form stays as it is.  If its start symbol has the empty production and
also stands on right-hand sides, there may be words that need this production within a longer
derivation.  Where all words of a length do, they are missed (`Grammar.Misses`).
-/

namespace GrammarSampler

/-! ### Single generations -/

variable {gen : Generator} {a : Nonterminal} {n : Nat}

/-- The empty word is generated where the empty production makes a tree. -/
theorem generateFrom_zero_cases (h : gen.table.Counts gen.grammar) {i : Nat}
    (hi : gen.table.numbering.id? a = some i) :
    (∃ τ ∈ gen.grammar.trees a 0, (gen.generateFrom a 0).1 = .ok τ.yield) ∨
      gen.grammar.trees a 0 = ∅ ∧ (gen.generateFrom a 0).1 = .error (.noString 0) := by
  have hlist := h.lists_empty hi
  rw [DerivationTable.trees_eq hi] at hlist
  have hresult : (gen.generateFrom a 0).1 =
      if (gen.table.rulesOf i).hasEmpty then .ok [] else .error (.noString 0) := by
    simp only [Generator.generateFrom, hi, if_true]
  cases hempty : (gen.table.rulesOf i).hasEmpty with
  | true =>
    rw [hempty] at hlist hresult
    exact .inl ⟨.empty a, (hlist.mem_iff _).1 (List.mem_singleton.2 rfl), hresult⟩
  | false =>
    rw [hempty] at hlist hresult
    exact .inr ⟨Set.eq_empty_of_forall_notMem fun τ hτ =>
      List.not_mem_nil ((hlist.mem_iff τ).2 hτ), hresult⟩

/-- Where there is room for the counts, a word is generated from a positive count. -/
theorem generateFrom_extend_cases (h : gen.table.Counts gen.grammar) {i : Nat}
    {u : DerivationTable} (hi : gen.table.numbering.id? a = some i) (hn : n ≠ 0)
    (hu : gen.table.extend? n = some u) :
    (∃ τ ∈ gen.grammar.trees a n, (gen.generateFrom a n).1 = .ok τ.yield) ∨
      gen.grammar.trees a n = ∅ ∧ (gen.generateFrom a n).1 = .error (.noString n) := by
  obtain ⟨hc, hsize⟩ := h.extend? hu
  have hui : u.numbering.id? a = some i := by rw [hc.numbering, ← h.numbering]; exact hi
  have hpos := hc.entry_pos_iff (i := i) hsize
  rw [DerivationTable.trees_eq hui] at hpos
  rcases Nat.eq_zero_or_pos (u.entry i n) with h0 | h0
  · refine .inr ⟨Set.eq_empty_of_forall_notMem fun τ hτ => ?_, ?_⟩
    · exact Nat.lt_irrefl 0 (h0 ▸ hpos.2 ⟨τ, hτ⟩)
    · simp only [Generator.generateFrom, hi, if_neg hn, hu, h0, if_true]
  · have hcount : gen.table.count? a n = some (u.entry i n, u) := by
      simp only [DerivationTable.count?, hi, hu, Option.map_some]
    obtain ⟨hresult, hτ⟩ := generateFrom_eq_drawing gen h (Nat.pos_of_ne_zero hn) hcount h0
    exact .inl ⟨_, hτ, by rw [hresult]⟩

/-- **One generation**: a length for which there is no room, the word of a tree, or no tree. -/
theorem generateFrom_cases (gen : Generator) (h : gen.table.Counts gen.grammar)
    (hrows : gen.table.Allocated) (a : Nonterminal) (n : Nat) :
    (a ∈ gen.grammar.nonterminals ∧ ¬gen.table.Fits n ∧
        (gen.generateFrom a n).1 = .error .tooLong) ∨
      (a ∈ gen.grammar.nonterminals → gen.table.Fits n) ∧
        ((∃ τ ∈ gen.grammar.trees a n, (gen.generateFrom a n).1 = .ok τ.yield) ∨
          gen.grammar.trees a n = ∅ ∧ (gen.generateFrom a n).1 = .error (.noString n)) := by
  cases hi : gen.table.numbering.id? a with
  | none =>
    have ha := h.id?_eq_none_iff.1 hi
    refine .inr ⟨fun ha' => absurd ha' ha, .inr ⟨Grammar.trees_eq_empty ha n, ?_⟩⟩
    simp only [Generator.generateFrom, hi]
  | some i =>
    by_cases hn : n = 0
    · subst hn
      exact .inr ⟨fun _ => hrows.fits_of_le (Nat.zero_le _), generateFrom_zero_cases h hi⟩
    · cases hu : gen.table.extend? n with
      | none =>
        refine .inl ⟨h.mem_nonterminals hi, hrows.extend?_eq_none_iff.1 hu, ?_⟩
        simp only [Generator.generateFrom, hi, if_neg hn, hu]
      | some u =>
        have hfits : gen.table.Fits n := by
          by_contra hnot
          exact Option.some_ne_none u (hu.symm.trans (hrows.extend?_eq_none_iff.2 hnot))
        exact .inr ⟨fun _ => hfits, generateFrom_extend_cases h hi hn hu⟩

/-! ### Words that need the empty production -/

namespace Grammar

variable {g c : Grammar}

/-- Without the empty production of the start symbol there is no empty production at all. -/
theorem nonempty_eq_self (hg : g.isChomsky = true) (h : ⟨g.start, []⟩ ∉ g.productions) :
    nonempty g.productions = g.productions := by
  refine List.filter_eq_self.2 fun p hp => ?_
  obtain ⟨a, r⟩ := p
  cases r with
  | nil =>
    rcases rhs_cases hg hp with ⟨-, ha⟩ | ⟨t, hr⟩ | ⟨b, c, hr⟩
    · obtain rfl : a = g.start := ha
      exact absurd hp h
    · cases hr
    · cases hr
  | cons y r => rfl

/-- Where the start symbol stands on no right-hand side, its empty production is applied at the root
or nowhere. -/
theorem derives_nonempty_of_not_mem (hg : g.isChomsky = true)
    (hrec : ∀ p ∈ g.productions, .nonterminal g.start ∉ p.rhs) {r : List Symbol}
    {w : List Terminal} (hr : .nonterminal g.start ∉ r) (h : Derives g.productions r w) :
    Derives (nonempty g.productions) r w := by
  induction h with
  | nil => exact .nil
  | terminal _ ih => exact .terminal (ih fun hmem => hr (List.mem_cons_of_mem _ hmem))
  | @rule p _ _ _ hp _ _ ihu ihv =>
    have hne : p.rhs ≠ [] := by
      rcases rhs_cases hg hp with ⟨-, hlhs⟩ | ⟨t, ht⟩ | ⟨b, c, hbc⟩
      · rw [hlhs] at hr
        exact absurd List.mem_cons_self hr
      · exact ht ▸ List.cons_ne_nil _ _
      · exact hbc ▸ List.cons_ne_nil _ _
    exact .rule (mem_nonempty.2 ⟨hp, hne⟩) (ihu (hrec p hp))
      (ihv fun hmem => hr (List.mem_cons_of_mem _ hmem))

/-- **The words of a length are missed**: the grammar is in Chomsky normal form already, it has
words of this length, and all of them need the empty production within a longer derivation. -/
def Misses (g : Grammar) (n : Nat) : Prop :=
  g.isChomsky = true ∧ n ≠ 0 ∧ (∃ w, w.length = n ∧ g.Generates w) ∧
    ∀ w, w.length = n → ¬Derives (nonempty g.productions) [.nonterminal g.start] w

/-- Words are missed only where the start symbol recurs and has the empty production. -/
theorem Misses.recurs {n : Nat} (h : g.Misses n) : ⟨g.start, []⟩ ∈ g.productions ∧
    ∃ p ∈ g.productions, .nonterminal g.start ∈ p.rhs := by
  obtain ⟨hg, hn, ⟨w, rfl, hw⟩, hmiss⟩ := h
  constructor
  · by_contra hempty
    refine hmiss w rfl ?_
    rw [nonempty_eq_self hg hempty]
    exact hw
  · by_contra hrec
    have hrec : ∀ p ∈ g.productions, .nonterminal g.start ∉ p.rhs :=
      fun p hp hmem => hrec ⟨p, hp, hmem⟩
    obtain ⟨p, hp, hlhs, hd⟩ := derives_single_iff.1 hw
    have hne : p.rhs ≠ [] := fun h0 => hn (by rw [h0] at hd; rw [derives_nil_iff.1 hd]; rfl)
    exact hmiss w rfl (derives_single_iff.2
      ⟨p, mem_nonempty.2 ⟨hp, hne⟩, hlhs, derives_nonempty_of_not_mem hg hrec (hrec p hp) hd⟩)

theorem empty_mem_iff (hg : g.isChomsky = true) :
    ⟨g.start, []⟩ ∈ g.productions ↔ g.Generates [] := by
  constructor
  · exact fun hp => derives_single_iff.2 ⟨_, hp, rfl, .nil⟩
  · intro h
    by_contra hempty
    rw [Generates, ← nonempty_eq_self hg hempty] at h
    exact List.cons_ne_nil _ _ (eq_nil_of_derives_nonempty h rfl)

theorem toChomsky_of_isChomsky (hc : g.toChomsky = .ok c) (hg : g.isChomsky = true) : c = g := by
  rcases toChomsky_eq_ok hc with ⟨-, rfl⟩ | ⟨hg', -⟩
  · rfl
  · rw [hg] at hg'
    cases hg'

/-- Words of a length that are not missed derive without empty productions in the normal form. -/
theorem exists_derives_nonempty (hc : g.toChomsky = .ok c) {n : Nat} (hn : n ≠ 0)
    (hw : ∃ w, w.length = n ∧ g.Generates w) (hmiss : ¬g.Misses n) :
    ∃ w, w.length = n ∧ Derives (nonempty c.productions) [.nonterminal c.start] w := by
  cases hg : g.isChomsky with
  | true =>
    obtain rfl := toChomsky_of_isChomsky hc hg
    by_contra hnone
    exact hmiss ⟨hg, hn, hw, fun w hlength hd => hnone ⟨w, hlength, hd⟩⟩
  | false =>
    obtain ⟨w, rfl, hw⟩ := hw
    exact ⟨w, rfl, derives_nonempty_of_toChomsky hc hg hw fun h0 => hn (by rw [h0]; rfl)⟩

/-- The trees of the normal form yield words of the language. -/
theorem generates_yield (hc : g.toChomsky = .ok c) {n : Nat} {τ : ChomskyTree}
    (hτ : τ ∈ c.trees c.start n) : τ.yield.length = n ∧ g.Generates τ.yield := by
  obtain ⟨hτ, hroot, hsize⟩ := hτ
  refine ⟨τ.length_yield.trans hsize, (generates_toChomsky_iff hc _).2 ?_⟩
  rw [Generates, ← hroot]
  exact hτ.derives

/-- **The normal form has a tree** for a length exactly when there are words that are not missed. -/
theorem exists_tree_iff (hc : g.toChomsky = .ok c) (n : Nat) :
    (∃ τ, τ ∈ c.trees c.start n) ↔ (∃ w, w.length = n ∧ g.Generates w) ∧ ¬g.Misses n := by
  have hform := isChomsky_toChomsky hc
  constructor
  · rintro ⟨τ, hτ⟩
    refine ⟨⟨τ.yield, generates_yield hc hτ⟩, ?_⟩
    rintro ⟨hg, hn, -, hmiss⟩
    obtain rfl := toChomsky_of_isChomsky hc hg
    obtain ⟨hτ, hroot, hsize⟩ := hτ
    refine hmiss τ.yield (τ.length_yield.trans hsize) ?_
    rw [← hroot]
    exact (hτ.nonempty (by omega)).derives
  · rintro ⟨hw, hmiss⟩
    rcases Nat.eq_zero_or_pos n with rfl | hn
    · obtain ⟨w, hlength, hw⟩ := hw
      obtain rfl := List.length_eq_zero_iff.1 hlength
      have hempty := (empty_mem_iff hform).2 ((generates_toChomsky_iff hc _).1 hw)
      exact ⟨.empty c.start, hempty, rfl, rfl⟩
    · obtain ⟨w, rfl, hd⟩ := exists_derives_nonempty hc (Nat.pos_iff_ne_zero.1 hn) hw hmiss
      obtain ⟨τ, hτ, -⟩ := (exists_tree_iff_derives hform (List.ne_nil_of_length_pos hn)).2 hd
      exact ⟨τ, hτ⟩

end Grammar

/-! ### Generation for any grammar -/

theorem new_eq_ok {c : Grammar} (hc : c.isChomsky = true) (s : Source) :
    Generator.new c s = .ok ⟨c, DerivationTable.ofGrammar c, s⟩ := by
  unfold Generator.new
  rw [DerivationTable.ofGrammar?_eq_some_iff.2 ⟨hc, rfl⟩]

/-- **Generation for a grammar with its normal form.**  For a length that a new table has room for,
a word of the language is generated whenever there is one of this length, and a failure is reported
exactly when there is none, unless the words of this length are missed.  Then the failure is
reported too. -/
theorem generate_toChomsky {g : Grammar} (h : g.productionsFor g.start ≠ []) (s : Source)
    (n : Nat) : ∃ c gen, g.toChomsky = .ok c ∧ Generator.new c s = .ok gen ∧
      (sequenceLimit ≤ n → (gen.generate n).1 = .error .tooLong) ∧
      (n < sequenceLimit → g.Misses n → (gen.generate n).1 = .error (.noString n)) ∧
      (n < sequenceLimit → ¬g.Misses n →
        ((∃ w, w.length = n ∧ g.Generates w) →
          ∃ w, (gen.generate n).1 = .ok w ∧ w.length = n ∧ g.Generates w) ∧
        ((gen.generate n).1 = .error (.noString n) ↔ ¬∃ w, w.length = n ∧ g.Generates w)) ∧
      (g.Misses n → ⟨g.start, []⟩ ∈ g.productions ∧
        ∃ p ∈ g.productions, .nonterminal g.start ∈ p.rhs) := by
  obtain ⟨c, hc⟩ := Grammar.exists_toChomsky h
  have htree := Grammar.exists_tree_iff hc n
  have hstart : c.start ∈ c.nonterminals := mem_sortedDistinct.2 (List.mem_cons_self ..)
  refine ⟨c, _, hc, new_eq_ok (Grammar.isChomsky_toChomsky hc) s, ?_⟩
  have hcases := generateFrom_cases ⟨c, DerivationTable.ofGrammar c, s⟩
    (DerivationTable.counts_ofGrammar c) (DerivationTable.allocated_ofGrammar c) c.start n
  -- there is room in a new table for all lengths below the limit
  simp only [DerivationTable.fits_ofGrammar_iff, Nat.not_lt] at hcases
  rcases hcases with ⟨-, hlimit, hresult⟩ | ⟨hlimit, ⟨τ, hτ, hresult⟩ | ⟨hnone, hresult⟩⟩
  · exact ⟨fun _ => hresult, fun hn => absurd hlimit (Nat.not_le.2 hn),
      fun hn => absurd hlimit (Nat.not_le.2 hn), Grammar.Misses.recurs⟩
  · obtain ⟨hw, hmiss⟩ := htree.1 ⟨τ, hτ⟩
    refine ⟨fun hn => absurd (hlimit hstart) (Nat.not_lt.2 hn), fun _ h => absurd h hmiss,
      fun _ _ => ⟨fun _ => ⟨τ.yield, hresult, Grammar.generates_yield hc hτ⟩, ?_⟩,
      Grammar.Misses.recurs⟩
    refine iff_of_false (fun herr => ?_) (not_not_intro hw)
    rw [Generator.generate, hresult] at herr
    cases herr
  · have hno : ¬∃ τ, τ ∈ c.trees c.start n := by
      rintro ⟨τ, hτ⟩
      rw [hnone] at hτ
      exact hτ
    refine ⟨fun hn => absurd (hlimit hstart) (Nat.not_lt.2 hn), fun _ _ => hresult, fun _ hmiss =>
      ⟨fun hw => absurd (htree.2 ⟨hw, hmiss⟩) hno, ?_⟩, Grammar.Misses.recurs⟩
    exact iff_of_true hresult fun hw => hno (htree.2 ⟨hw, hmiss⟩)

/-- Two letters are generated for the repetitions of a letter, whose normal form keeps the empty
production of a start symbol that recurs. -/
theorem generate_toChomsky_repetitions :
    Grammar.repetitions.productionsFor Grammar.repetitions.start ≠ [] ∧
      ∃ c gen, Grammar.repetitions.toChomsky = .ok c ∧ Generator.new c (.script []) = .ok gen ∧
        ∃ w, (gen.generate 2).1 = .ok w ∧ w.length = 2 ∧ Grammar.repetitions.Generates w := by
  refine ⟨by decide, ?_⟩
  obtain ⟨c, gen, hc, hgen, -, -, hexact, -⟩ :=
    generate_toChomsky (g := Grammar.repetitions) (by decide) (.script []) 2
  have hword : Grammar.repetitions.Generates [⟨"a"⟩, ⟨"a"⟩] := by
    have hempty : Grammar.repetitions.Generates [] :=
      derives_single_iff.2 ⟨⟨⟨"S"⟩, []⟩, by decide, rfl, .nil⟩
    have hstep : ∀ w, Grammar.repetitions.Generates w →
        Grammar.repetitions.Generates (⟨"a"⟩ :: w) := fun w hw =>
      derives_single_iff.2
        ⟨⟨⟨"S"⟩, [.terminal ⟨"a"⟩, .nonterminal ⟨"S"⟩]⟩, by decide, rfl, .terminal hw⟩
    exact hstep _ (hstep _ hempty)
  have hmiss : ¬Grammar.repetitions.Misses 2 := fun h => absurd h.1 (by decide)
  exact ⟨c, gen, hc, hgen, (hexact (by decide) hmiss).1 ⟨_, rfl, hword⟩⟩

/-- A repeated letter, in Chomsky normal form, with a start symbol that recurs and is empty in the
end. -/
def Grammar.appendings : Grammar where
  start := ⟨"S"⟩
  productions := [⟨⟨"S"⟩, [.nonterminal ⟨"S"⟩, .nonterminal ⟨"A"⟩]⟩, ⟨⟨"S"⟩, []⟩,
    ⟨⟨"A"⟩, [.terminal ⟨"a"⟩]⟩]
  nodup := by decide
  defined := by decide

/-- The single letter is a word, but it is not generated. -/
theorem generate_appendings : Grammar.appendings.toChomsky = .ok Grammar.appendings ∧
    Grammar.appendings.Generates [⟨"a"⟩] ∧
      ∃ gen, Generator.new Grammar.appendings (.script []) = .ok gen ∧
        (gen.generate 1).1 = .error (.noString 1) := by
  refine ⟨rfl, ?_, _, rfl, by decide +kernel⟩
  have hempty : Derives Grammar.appendings.productions [.nonterminal ⟨"S"⟩] [] :=
    derives_single_iff.2 ⟨⟨⟨"S"⟩, []⟩, by decide, rfl, .nil⟩
  have hletter : Derives Grammar.appendings.productions [.nonterminal ⟨"A"⟩] [⟨"a"⟩] :=
    derives_single_iff.2 ⟨⟨⟨"A"⟩, [.terminal ⟨"a"⟩]⟩, by decide, rfl, .terminal .nil⟩
  exact derives_single_iff.2
    ⟨⟨⟨"S"⟩, [.nonterminal ⟨"S"⟩, .nonterminal ⟨"A"⟩]⟩, by decide, rfl, hempty.append hletter⟩

end GrammarSampler
