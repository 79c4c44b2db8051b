import GrammarSampler.Proofs.TreeCounts
import GrammarSampler.Proofs.TreeEmbeddings

/-!
# Unambiguous grammars stay unambiguous

The counted trees of a normal form are derivation trees like all others, of which every node keeps
its nonterminal only (`ChomskyTree.toForest`).  So the normal form has no more trees for a word than
the grammar had, also where the grammar was left as it is.  Where every word has at most one tree,
the counts of the normal form are at most the numbers of words.
-/

namespace GrammarSampler

/-! ### Counted trees as derivation trees -/

namespace ChomskyTree

/-- The tree, with the production at every node. -/
def toForest : ChomskyTree → Forest
  | empty a => .rule ⟨a, []⟩ .nil .nil
  | leaf a t => .rule ⟨a, [.terminal t]⟩ (.terminal t .nil) .nil
  | node a left right => .rule ⟨a, [.nonterminal left.root, .nonterminal right.root]⟩
      (left.toForest.append right.toForest) .nil

@[simp] theorem roots_toForest (τ : ChomskyTree) : τ.toForest.roots = [.nonterminal τ.root] := by
  cases τ <;> rfl

@[simp] theorem yield_toForest (τ : ChomskyTree) : τ.toForest.yield = τ.yield := by
  induction τ with
  | empty a => rfl
  | leaf a t => rfl
  | node a left right ihl ihr => simp [toForest, Forest.yield, yield, ihl, ihr]

theorem Follows.toForest {ps : List Production} {τ : ChomskyTree} (h : τ.Follows ps) :
    τ.toForest.Follows ps := by
  induction τ with
  | empty a => exact ⟨h, rfl, trivial, trivial⟩
  | leaf a t => exact ⟨h, rfl, trivial, trivial⟩
  | node a left right ihl ihr =>
    obtain ⟨hp, ⟨hl, -⟩, hr, -⟩ := h
    refine ⟨hp, ?_, Forest.follows_append.2 ⟨ihl hl, ihr hr⟩, trivial⟩
    simp

theorem toForest_injective : Function.Injective toForest := by
  intro τ τ' h
  induction τ generalizing τ' with
  | empty a =>
    cases τ' with
    | empty a' => simpa [toForest] using h
    | leaf a' t' => simp [toForest] at h
    | node a' left' right' => simp [toForest] at h
  | leaf a t =>
    cases τ' with
    | empty a' => simp [toForest] at h
    | leaf a' t' => simpa [toForest] using h
    | node a' left' right' => simp [toForest] at h
  | node a left right ihl ihr =>
    cases τ' with
    | empty a' => simp [toForest] at h
    | leaf a' t' => simp [toForest] at h
    | node a' left' right' =>
      obtain ⟨hp, hchildren, -⟩ := Forest.rule.inj h
      obtain ⟨rfl, -⟩ := Production.mk.inj hp
      obtain ⟨hleft, hright⟩ := Forest.append_inj hchildren (by simp)
      rw [ihl hleft, ihr hright]

end ChomskyTree

/-! ### The trees of a normal form -/

namespace Grammar

/-- Every word has at most one derivation tree. -/
def Unambiguous (g : Grammar) : Prop :=
  ∀ w, (treesOf g.productions g.start w).Subsingleton

variable {g c : Grammar}

/-- The counted trees of a word are among its derivation trees without empty productions. -/
theorem nonempty_embedding_trees (g : Grammar) (a : Nonterminal) {w : List Terminal} (hw : w ≠ []) :
    Nonempty ({τ ∈ g.trees a w.length | τ.yield = w} ↪ treesOf (nonempty g.productions) a w) := by
  have hmem : ∀ τ : {τ ∈ g.trees a w.length | τ.yield = w},
      τ.1.toForest ∈ treesOf (nonempty g.productions) a w := by
    rintro ⟨τ, ⟨hτ, rfl, hsize⟩, rfl⟩
    have hleaves : 0 < τ.size := hsize ▸ List.length_pos_iff.2 hw
    exact ⟨(hτ.nonempty hleaves).toForest, τ.roots_toForest, τ.yield_toForest⟩
  refine ⟨⟨fun τ => ⟨τ.1.toForest, hmem τ⟩, fun τ τ' h => ?_⟩⟩
  exact Subtype.ext (ChomskyTree.toForest_injective (Subtype.mk.inj h))

/-- A word has no more trees without empty productions in the normal form than it had trees. -/
theorem nonempty_embedding_toChomsky (h : g.toChomsky = .ok c) (w : List Terminal) :
    Nonempty (treesOf (nonempty c.productions) c.start w ↪ treesOf g.productions g.start w) := by
  rcases toChomsky_eq_ok h with ⟨-, rfl⟩ | ⟨-, hstart, hmem⟩
  · exact (undoes_id fun p hp => (mem_nonempty.1 hp).1).nonempty_embedding _ w
  · have hsub : ∀ p ∈ nonempty c.productions,
        p ∈ nonempty (chomskyProductions g.start g.productions g.supply) := fun p hp =>
      mem_nonempty.2 ⟨(hmem p).1 (mem_nonempty.1 hp).1, (mem_nonempty.1 hp).2⟩
    obtain ⟨e⟩ := (undoes_id hsub).nonempty_embedding c.start w
    rw [hstart] at e ⊢
    obtain ⟨e'⟩ := nonempty_embedding_chomskyProductions g.nodup
      (fun a ha => name_mem_supply (.inr ha)) (name_mem_supply (.inl rfl)) w
    exact ⟨e.trans e'⟩

theorem nonempty_embedding_trees_toChomsky (h : g.toChomsky = .ok c) {w : List Terminal}
    (hw : w ≠ []) : Nonempty ({τ ∈ c.trees c.start w.length | τ.yield = w} ↪
      treesOf g.productions g.start w) := by
  obtain ⟨e⟩ := c.nonempty_embedding_trees c.start hw
  obtain ⟨e'⟩ := nonempty_embedding_toChomsky h w
  exact ⟨e.trans e'⟩

/-- The normal form of an unambiguous grammar has at most one tree for each word. -/
theorem encard_trees_toChomsky_le (h : g.toChomsky = .ok c) (hg : g.Unambiguous) {n : Nat}
    (hn : 1 ≤ n) :
    (c.trees c.start n).encard ≤ {w | w.length = n ∧ g.Generates w}.encard := by
  have hlength : ∀ τ ∈ c.trees c.start n, τ.yield.length = n := fun τ hτ =>
    τ.length_yield.trans hτ.2.2
  refine Set.encard_le_encard_of_injOn (f := ChomskyTree.yield) ?_ ?_
  · intro τ hτ
    refine ⟨hlength τ hτ, (generates_toChomsky_iff h _).2 ?_⟩
    obtain ⟨hfollows, hroot, -⟩ := hτ
    rw [Generates, ← hroot]
    exact hfollows.derives
  · intro τ hτ τ' hτ' heq
    have hw : τ.yield ≠ [] := List.length_pos_iff.1 (hlength τ hτ ▸ hn)
    obtain ⟨e⟩ := nonempty_embedding_trees_toChomsky h hw
    rw [hlength τ hτ] at e
    have hone := hg _ (e ⟨τ, hτ, rfl⟩).2 (e ⟨τ', hτ', heq.symm⟩).2
    exact Subtype.mk.inj (e.injective (Subtype.ext hone))

/-- **The normal form adds no ambiguity**: the counted trees of a word stand for different trees of
the grammar.  So the counts of an unambiguous grammar, whatever was asked before, are at most the
numbers of its words.  A count is refused only where the rows would have to grow beyond the limit,
and not for lengths up to half of it. -/
theorem toChomsky_ambiguity (h : g.toChomsky = .ok c) :
    (∀ w, w ≠ [] → Nonempty ({τ ∈ c.trees c.start w.length | τ.yield = w} ↪
      treesOf g.productions g.start w)) ∧
    (g.Unambiguous → ∀ n, 1 ≤ n →
      (c.trees c.start n).encard ≤ {w | w.length = n ∧ g.Generates w}.encard ∧
      ∃ t₀, DerivationTable.ofGrammar? c = some t₀ ∧ ∀ calls t, t₀.runCalls calls = some t →
        (t.count? c.start n = none ↔ ¬t.Fits n) ∧ (2 * n ≤ sequenceLimit → t.Fits n) ∧
        ∀ k u, t.count? c.start n = some (k, u) →
          (k : ℕ∞) ≤ {w | w.length = n ∧ g.Generates w}.encard) := by
  refine ⟨fun w hw => nonempty_embedding_trees_toChomsky h hw, fun hg n hn => ?_⟩
  have hle := encard_trees_toChomsky_le h hg hn
  have hstart : c.start ∈ c.nonterminals := mem_sortedDistinct.2 List.mem_cons_self
  refine ⟨hle, _, DerivationTable.ofGrammar?_eq_some_iff.2 ⟨isChomsky_toChomsky h, rfl⟩, ?_⟩
  intro calls t ht
  have hcounts := (DerivationTable.counts_ofGrammar c).runCalls ht
  have hrows := (DerivationTable.allocated_ofGrammar c).runCalls ht
  refine ⟨?_, DerivationTable.fits_of_two_mul_le hrows.capacity_le,
    fun k u hu => hcounts.encard_of_count? hu ▸ hle⟩
  rw [hcounts.count?_eq_none_iff hrows, and_iff_right hstart]

/-! ### Grammars with one tree for each word -/

theorem eq_nil_of_roots {f : Forest} (h : f.roots = []) : f = .nil := by
  cases f with
  | nil => rfl
  | terminal t rest => cases h
  | rule p children rest => cases h

theorem exists_eq_terminal_of_roots {t : Terminal} {r : List Symbol} {f : Forest}
    (h : f.roots = .terminal t :: r) : ∃ rest : Forest, f = .terminal t rest ∧ rest.roots = r := by
  cases f with
  | nil => cases h
  | terminal t' rest =>
    obtain ⟨ht, hrest⟩ := List.cons.inj h
    exact ⟨rest, by rw [Symbol.terminal.inj ht], hrest⟩
  | rule p children rest => cases h

/-- The tree of one nonterminal is a production over the trees of its right-hand side. -/
theorem exists_rule_of_mem_treesOf {ps : List Production} {a : Nonterminal} {w : List Terminal}
    {f : Forest} (h : f ∈ treesOf ps a w) : ∃ r children, ⟨a, r⟩ ∈ ps ∧
      f = .rule ⟨a, r⟩ children .nil ∧ children.Follows ps ∧ children.roots = r ∧
        children.yield = w := by
  obtain ⟨hf, hroots, hyield⟩ := h
  cases f with
  | nil => cases hroots
  | terminal t rest => cases hroots
  | rule p children rest =>
    obtain ⟨hp, hchildren, hc, -⟩ := hf
    obtain ⟨hlhs, hrest⟩ := List.cons.inj hroots
    obtain rfl := Symbol.nonterminal.inj hlhs
    obtain rfl := eq_nil_of_roots hrest
    have hleaves : children.yield = w := by simpa [Forest.yield] using hyield
    exact ⟨p.rhs, children, hp, rfl, hc, hchildren, hleaves⟩

/-- A repetition is empty, or a letter before a repetition. -/
theorem mem_treesOf_repetitions {w : List Terminal} {f : Forest}
    (h : f ∈ treesOf repetitions.productions ⟨"S"⟩ w) :
    (w = [] ∧ f = .rule ⟨⟨"S"⟩, []⟩ .nil .nil) ∨ ∃ v f', w = ⟨"a"⟩ :: v ∧
      f' ∈ treesOf repetitions.productions ⟨"S"⟩ v ∧
        f = .rule ⟨⟨"S"⟩, [.terminal ⟨"a"⟩, .nonterminal ⟨"S"⟩]⟩ (.terminal ⟨"a"⟩ f') .nil := by
  obtain ⟨r, children, hp, rfl, hc, hroots, rfl⟩ := exists_rule_of_mem_treesOf h
  have hr : r = [.terminal ⟨"a"⟩, .nonterminal ⟨"S"⟩] ∨ r = [] := by
    simpa [repetitions] using hp
  rcases hr with rfl | rfl
  · obtain ⟨rest, rfl, hrest⟩ := exists_eq_terminal_of_roots hroots
    exact .inr ⟨rest.yield, rest, rfl, ⟨hc, hrest, rfl⟩, rfl⟩
  · rw [eq_nil_of_roots hroots]
    exact .inl ⟨rfl, rfl⟩

theorem unambiguous_repetitions : repetitions.Unambiguous := by
  intro w
  induction w with
  | nil =>
    intro f hf f' hf'
    rcases mem_treesOf_repetitions hf with ⟨-, rfl⟩ | ⟨_, _, hw, -⟩
    · rcases mem_treesOf_repetitions hf' with ⟨-, rfl⟩ | ⟨_, _, hw, -⟩
      · rfl
      · cases hw
    · cases hw
  | cons t w ih =>
    intro f hf f' hf'
    rcases mem_treesOf_repetitions hf with ⟨hw, -⟩ | ⟨v, f₁, hw, hf₁, rfl⟩
    · cases hw
    · rcases mem_treesOf_repetitions hf' with ⟨hw', -⟩ | ⟨v', f₂, hw', hf₂, rfl⟩
      · cases hw'
      · obtain ⟨-, rfl⟩ := List.cons.inj hw
        obtain ⟨-, rfl⟩ := List.cons.inj hw'
        rw [ih hf₁ hf₂]

/-- The normal form of the repetitions has one counted tree with three leaves, and there is a word
of three letters. -/
theorem toChomsky_ambiguity_repetitions : repetitions.toChomsky = .ok repetitionsForm ∧
    repetitions.Unambiguous ∧
      Nonempty ({τ ∈ repetitionsForm.trees ⟨"S"⟩ 1 | τ.yield = [⟨"a"⟩]} ↪
        treesOf repetitions.productions ⟨"S"⟩ [⟨"a"⟩]) ∧
      ∃ u, (DerivationTable.ofGrammar repetitionsForm).count? ⟨"S"⟩ 3 = some (1, u) ∧
        1 ≤ {w | w.length = 3 ∧ repetitions.Generates w}.encard := by
  obtain ⟨hembeds, hbounds⟩ := toChomsky_ambiguity toChomsky_repetitions
  obtain ⟨-, t₀, ht₀, hcounts⟩ := hbounds unambiguous_repetitions 3 (by decide)
  obtain ⟨-, rfl⟩ := DerivationTable.ofGrammar?_eq_some_iff.1 ht₀
  obtain ⟨-, -, hle⟩ := hcounts [] _ rfl
  have hcount : ((DerivationTable.ofGrammar repetitionsForm).count? ⟨"S"⟩ 3).map Prod.fst =
      some 1 := by decide +kernel
  obtain ⟨⟨k, u⟩, hu, rfl⟩ := Option.map_eq_some_iff.1 hcount
  have hone := hembeds [⟨"a"⟩] (List.cons_ne_nil _ _)
  exact ⟨toChomsky_repetitions, unambiguous_repetitions, hone, u, hu, by simpa using hle _ u hu⟩

/-- The one word of one letter has one tree. -/
theorem unambiguous_letter : letter.Unambiguous := by
  have hone : ∀ w f, f ∈ treesOf letter.productions ⟨"S"⟩ w →
      f = .rule ⟨⟨"S"⟩, [.terminal ⟨"a"⟩]⟩ (.terminal ⟨"a"⟩ .nil) .nil := by
    intro w f hf
    obtain ⟨r, children, hp, rfl, -, hroots, -⟩ := exists_rule_of_mem_treesOf hf
    obtain rfl : r = [.terminal ⟨"a"⟩] := by simpa [letter] using hp
    obtain ⟨rest, rfl, hrest⟩ := exists_eq_terminal_of_roots hroots
    rw [eq_nil_of_roots hrest]
  intro w f hf f' hf'
  rw [hone w f hf, hone w f' hf']

theorem eq_of_generates_letter {w : List Terminal} (h : letter.Generates w) : w = [⟨"a"⟩] := by
  obtain ⟨p, hp, -, hw⟩ := derives_single_iff.1 h
  obtain rfl : p = ⟨⟨"S"⟩, [.terminal ⟨"a"⟩]⟩ := by simpa [letter] using hp
  obtain ⟨v, rfl, hv⟩ := derives_terminal_cons_iff.1 hw
  rw [derives_nil_iff.1 hv]

/-- A length that is a machine word, but that there is no room for: an unambiguous grammar has no
words of this length, but there is no count that is at most their number. -/
theorem toChomsky_letter_tooLong : 1 ≤ 2 ^ 60 ∧ letter.toChomsky = .ok letter ∧
    letter.Unambiguous ∧ {w | w.length = 2 ^ 60 ∧ letter.Generates w}.encard = 0 ∧
      DerivationTable.ofGrammar? letter = some (DerivationTable.ofGrammar letter) ∧
        (DerivationTable.ofGrammar letter).count? letter.start (2 ^ 60) = none := by
  refine ⟨by decide, rfl, unambiguous_letter, ?_, rfl, by decide +kernel⟩
  rw [Set.encard_eq_zero]
  refine Set.eq_empty_of_forall_notMem fun w hw => ?_
  obtain ⟨hlength, hw⟩ := hw
  rw [eq_of_generates_letter hw] at hlength
  exact absurd hlength (by decide)

end Grammar

end GrammarSampler
