import GrammarSampler.Proofs.ChomskyForm
import GrammarSampler.Proofs.ChomskyTrees
import Mathlib.Logic.Embedding.Basic

/-!
# Eliminations add no trees

Every tree after the elimination of empty or unit productions stands for a tree before it.  The same
production may arise from several others, by several variants or chains, so there is a choice; but
the tree after can be read off the tree before, whatever was chosen (`Undoes`).  From a tree before
the elimination of empty productions, leave out the subtrees without leaves (`Forest.prune`).  From
a tree before the elimination of unit productions, leave out the unit productions
(`Forest.collapse`).  So different trees after stand for different trees before, and a word has no
more trees than it had (`Undoes.nonempty_embedding`).
-/

namespace GrammarSampler

open Relation

/-! ### Reading trees off other trees -/

/-- Each tree by `qs` can be read off, by `undo`, from a tree by `ps` that has the same roots and
the same leaves. -/
def Undoes (undo : Forest → Forest) (qs ps : List Production) : Prop :=
  ∀ f : Forest, f.Follows qs →
    ∃ f' : Forest, f'.Follows ps ∧ f'.roots = f.roots ∧ f'.yield = f.yield ∧ undo f' = f

theorem Undoes.trans {undo undo' : Forest → Forest} {ps qs rs : List Production}
    (h : Undoes undo qs ps) (h' : Undoes undo' rs qs) : Undoes (undo' ∘ undo) rs ps := by
  intro f hf
  obtain ⟨f₁, hf₁, hroots₁, hyield₁, rfl⟩ := h' f hf
  obtain ⟨f₂, hf₂, hroots₂, hyield₂, rfl⟩ := h f₁ hf₁
  exact ⟨f₂, hf₂, hroots₂.trans hroots₁, hyield₂.trans hyield₁, rfl⟩

/-- A word has no more trees by `qs` than by `ps`. -/
theorem Undoes.nonempty_embedding {undo : Forest → Forest} {ps qs : List Production}
    (h : Undoes undo qs ps) (a : Nonterminal) (w : List Terminal) :
    Nonempty (treesOf qs a w ↪ treesOf ps a w) := by
  have hpre : ∀ f : treesOf qs a w, ∃ f' : treesOf ps a w, undo f' = f := by
    rintro ⟨f, hf, hroots, hyield⟩
    obtain ⟨f', hf', hroots', hyield', hundo⟩ := h f hf
    exact ⟨⟨f', hf', hroots'.trans hroots, hyield'.trans hyield⟩, hundo⟩
  choose before hbefore using hpre
  refine ⟨⟨before, fun f₁ f₂ heq => ?_⟩⟩
  apply Subtype.ext
  rw [← hbefore f₁, ← hbefore f₂, heq]

theorem Forest.Follows.mono {ps qs : List Production} (hsub : ∀ p ∈ ps, p ∈ qs) {f : Forest}
    (hf : f.Follows ps) : f.Follows qs := by
  induction f with
  | nil => trivial
  | terminal t rest ih => exact ih hf
  | rule p children rest ihc ihr =>
    obtain ⟨hp, hroots, hc, hrest⟩ := hf
    exact ⟨hsub p hp, hroots, ihc hc, ihr hrest⟩

theorem undoes_id {ps qs : List Production} (hsub : ∀ p ∈ qs, p ∈ ps) : Undoes id qs ps :=
  fun f hf => ⟨f, hf.mono hsub, rfl, rfl, rfl⟩

/-! ### Empty productions -/

/-- Leaves out the trees without leaves. -/
def Forest.prune : Forest → Forest
  | nil => nil
  | terminal t rest => terminal t rest.prune
  | rule p children rest =>
    if children.yield = [] then rest.prune
    else rule ⟨p.lhs, children.prune.roots⟩ children.prune rest.prune

theorem prune_append (f g : Forest) : (f.append g).prune = f.prune.append g.prune := by
  induction f with
  | nil => rfl
  | terminal t rest ih => simp only [Forest.append, Forest.prune, ih]
  | rule p children rest _ ih =>
    simp only [Forest.append, Forest.prune, ih]
    split
    · rfl
    · rfl

theorem prune_eq_nil {f : Forest} (h : f.yield = []) : f.prune = .nil := by
  induction f with
  | nil => rfl
  | terminal t rest ih => cases h
  | rule p children rest _ ih =>
    obtain ⟨hchildren, hrest⟩ := List.append_eq_nil_iff.1 h
    rw [Forest.prune, if_pos hchildren]
    exact ih hrest

section empty

variable {ps : List Production} {start : Nonterminal}

/-- The trees of a variant are completed with trees of the empty word to trees of its origin. -/
theorem exists_completed {r r' : List Symbol} (hvar : r' ∈ variants (isOptional ps start) r)
    {f : Forest} (hf : f.Follows ps) (hroots : f.roots = r') :
    ∃ f' : Forest, f'.Follows ps ∧ f'.roots = r ∧ f'.yield = f.yield ∧ f'.prune = f.prune := by
  induction r generalizing r' f with
  | nil =>
    rw [List.mem_singleton.1 hvar] at hroots
    exact ⟨f, hf, hroots, rfl, rfl⟩
  | cons y r ih =>
    rcases mem_variants_cons.1 hvar with ⟨s, hs, rfl⟩ | ⟨hy, hvar⟩
    · -- the tree of `y` stays
      have happend : f.roots = [y] ++ s := hroots
      obtain ⟨f₁, f₂, rfl, hr₁, hr₂⟩ := Forest.exists_eq_append happend
      obtain ⟨hf₁, hf₂⟩ := Forest.follows_append.1 hf
      obtain ⟨f', hf', hr', hyield, hprune⟩ := ih hs hf₂ hr₂
      refine ⟨f₁.append f', Forest.follows_append.2 ⟨hf₁, hf'⟩, ?_, ?_, ?_⟩
      · simp [hr₁, hr']
      · simp [hyield]
      · rw [prune_append, prune_append, hprune]
    · -- a tree of the empty word is put in the place of `y`
      obtain ⟨e, he, her, hey⟩ := derives_iff_exists_forest.1 (derives_nil_of_isOptional hy)
      obtain ⟨f', hf', hr', hyield, hprune⟩ := ih hvar hf hroots
      refine ⟨e.append f', Forest.follows_append.2 ⟨he, hf'⟩, ?_, ?_, ?_⟩
      · simp [her, hr']
      · simp [hey, hyield]
      · rw [prune_append, prune_eq_nil hey, hprune]
        rfl

/-- **Elimination of empty productions** is undone by leaving out the trees without leaves. -/
theorem undoes_eliminateEmpty :
    Undoes Forest.prune (nonempty (eliminateEmpty ps start)) ps := by
  intro f hf
  induction f with
  | nil => exact ⟨.nil, trivial, rfl, rfl, rfl⟩
  | terminal t rest ih =>
    obtain ⟨rest', hrest', hr, hy, hu⟩ := ih hf
    refine ⟨.terminal t rest', hrest', ?_, ?_, ?_⟩
    · simp [Forest.roots, hr]
    · simp [Forest.yield, hy]
    · simp [Forest.prune, hu]
  | rule q c rest ihc ihr =>
    obtain ⟨hq, hroots, hc, hrest⟩ := hf
    have hne : q.rhs ≠ [] := (mem_nonempty.1 hq).2
    obtain ⟨⟨p, hp, hlhs, hvar⟩, -⟩ := mem_eliminateEmpty.1 (mem_nonempty.1 hq).1
    obtain ⟨c₁, hc₁, hr₁, hy₁, hu₁⟩ := ihc hc
    obtain ⟨c₂, hc₂, hr₂, hy₂, hu₂⟩ := exists_completed hvar hc₁ (hr₁.trans hroots)
    obtain ⟨rest', hrest', hr', hy', hu'⟩ := ihr hrest
    -- the children derive something, so that pruning keeps them
    have hyield : c.yield ≠ [] := fun h0 =>
      hne (hroots ▸ eq_nil_of_derives_nonempty (Forest.derives hc) h0)
    have hyield₂ : c₂.yield ≠ [] := by
      rw [hy₂, hy₁]
      exact hyield
    refine ⟨.rule p c₂ rest', ⟨hp, hr₂, hc₂, hrest'⟩, ?_, ?_, ?_⟩
    · simp [Forest.roots, hr', hlhs]
    · simp [Forest.yield, hy₂, hy₁, hy']
    · rw [Forest.prune, if_neg hyield₂, hu₂, hu₁, hu', hroots, hlhs]

end empty

/-! ### Unit productions -/

/-- Puts `a` in the place of the nonterminal at the first root. -/
def Forest.relabel (a : Nonterminal) : Forest → Forest
  | nil => nil
  | terminal t rest => terminal t rest
  | rule p children rest => rule ⟨a, p.rhs⟩ children rest

/-- Leaves out the unit productions; the production after them takes their place. -/
def Forest.collapse : Forest → Forest
  | nil => nil
  | terminal t rest => terminal t rest.collapse
  | rule p children rest =>
    if p.isUnit then (children.collapse.relabel p.lhs).append rest.collapse
    else rule p children.collapse rest.collapse

theorem collapse_append (f g : Forest) : (f.append g).collapse = f.collapse.append g.collapse := by
  induction f with
  | nil => rfl
  | terminal t rest ih => simp only [Forest.append, Forest.collapse, ih]
  | rule p children rest _ ih =>
    simp only [Forest.append, Forest.collapse, ih]
    split
    · exact (Forest.append_assoc _ _ _).symm
    · rfl

section units

variable {ps : List Production} {start : Nonterminal}

/-- A chain of unit productions before a tree collapses to the production of the tree. -/
theorem exists_chain {a b : Nonterminal} (hchain : ReflTransGen (UnitStep ps) a b)
    {r : List Symbol} (hp : ⟨b, r⟩ ∈ ps) (hunit : Production.isUnit ⟨b, r⟩ = false) {c : Forest}
    (hc : c.Follows ps) (hroots : c.roots = r) :
    ∃ f : Forest, f.Follows ps ∧ f.roots = [.nonterminal a] ∧ f.yield = c.yield ∧
      f.collapse = .rule ⟨a, r⟩ c.collapse .nil := by
  induction hchain using ReflTransGen.head_induction_on with
  | refl =>
    refine ⟨.rule ⟨b, r⟩ c .nil, ⟨hp, hroots, hc, trivial⟩, rfl, ?_, ?_⟩
    · simp [Forest.yield]
    · simp [Forest.collapse, hunit]
  | @head a d hstep _ ih =>
    obtain ⟨f, hf, hr, hy, hcollapse⟩ := ih
    have hunit' : Production.isUnit ⟨a, [.nonterminal d]⟩ = true := rfl
    refine ⟨.rule ⟨a, [.nonterminal d]⟩ f .nil, ⟨hstep, hr, hf, trivial⟩, rfl, ?_, ?_⟩
    · simp [Forest.yield, hy]
    · rw [Forest.collapse, if_pos hunit', hcollapse]
      rfl

/-- **Elimination of unit productions** is undone by leaving them out. -/
theorem undoes_eliminateUnits :
    Undoes Forest.collapse (nonempty (eliminateUnits ps start)) (nonempty ps) := by
  intro f hf
  induction f with
  | nil => exact ⟨.nil, trivial, rfl, rfl, rfl⟩
  | terminal t rest ih =>
    obtain ⟨rest', hrest', hr, hy, hu⟩ := ih hf
    refine ⟨.terminal t rest', hrest', ?_, ?_, ?_⟩
    · simp [Forest.roots, hr]
    · simp [Forest.yield, hy]
    · simp [Forest.collapse, hu]
  | rule q c rest ihc ihr =>
    obtain ⟨hq, hroots, hc, hrest⟩ := hf
    obtain ⟨hq, hne⟩ := mem_nonempty.1 hq
    obtain ⟨-, ⟨b, hchain, hb, hunit⟩, -⟩ := mem_eliminateUnits.1 hq
    obtain ⟨c', hc', hr', hy', hu'⟩ := ihc hc
    obtain ⟨f', hf', hfr, hfy, hfu⟩ := exists_chain (unitSteps_nonempty hchain)
      (mem_nonempty.2 ⟨hb, hne⟩) hunit hc' (hr'.trans hroots)
    obtain ⟨rest', hrest', hrr, hry, hru⟩ := ihr hrest
    refine ⟨f'.append rest', Forest.follows_append.2 ⟨hf', hrest'⟩, ?_, ?_, ?_⟩
    · simp [Forest.roots, hfr, hrr]
    · simp [Forest.yield, hfy, hy', hry]
    · rw [collapse_append, hfu, hu', hru]
      rfl

end units

/-! ### All stages -/

section stages

variable {start : Nonterminal} {ps : List Production} {supply : NameSupply}

/-- The eliminations after one another. -/
theorem undoes_chomskyProductions : Undoes (Forest.collapse ∘ Forest.prune)
    (nonempty (chomskyProductions start ps supply)) (binaryProductions ps supply) := by
  have huseless : Undoes id (nonempty (chomskyProductions start ps supply))
      (nonempty (eliminateUnits (eliminateEmpty (binaryProductions ps supply) start) start)) := by
    apply undoes_id
    intro p hp
    obtain ⟨hp, hne⟩ := mem_nonempty.1 hp
    rw [chomskyProductions_eq] at hp
    exact mem_nonempty.2 ⟨(mem_removeUseless_iff.1 hp).1, hne⟩
  exact (undoes_eliminateEmpty.trans undoes_eliminateUnits).trans huseless

/-- **The stages add no trees**: the trees without empty productions that a word has in the end
stand for different trees that it had. -/
theorem nonempty_embedding_chomskyProductions (hnodup : ps.Nodup) (huses : supply.Uses ps)
    (hstart : start.name ∈ supply.used) (w : List Terminal) :
    Nonempty (treesOf (nonempty (chomskyProductions start ps supply)) start w ↪
      treesOf ps start w) := by
  obtain ⟨e⟩ := undoes_chomskyProductions.nonempty_embedding start w
  obtain ⟨e'⟩ := (binaryForm_rewrites hnodup huses).sameTrees start hstart w
  exact ⟨e.trans e'.symm.toEmbedding⟩

end stages

end GrammarSampler
