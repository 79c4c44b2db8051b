import GrammarSampler.Proofs.Derivations
import Mathlib.Data.Set.Basic

/-!
# Derivation trees in Chomsky normal form

A `ChomskyTree` is a leaf, or a node over two trees that both have leaves; the empty production
makes a tree of its own, that of the empty word.  `Grammar.trees` are the trees of a grammar with a
given nonterminal at the root and a given number of terminals at the leaves.

Trees with leaves are the derivations without empty productions: such a tree exists for a word
exactly when the word derives without them (`exists_tree_iff_derives`).
-/

namespace GrammarSampler

/-- A derivation tree by productions in Chomsky normal form, with its nonterminals. -/
inductive ChomskyTree where
  | empty (a : Nonterminal)
  | leaf (a : Nonterminal) (t : Terminal)
  | node (a : Nonterminal) (left right : ChomskyTree)
  deriving DecidableEq

namespace ChomskyTree

/-- The nonterminal at the root. -/
def root : ChomskyTree → Nonterminal
  | empty a => a
  | leaf a _ => a
  | node a _ _ => a

/-- The terminals at the leaves. -/
def yield : ChomskyTree → List Terminal
  | empty _ => []
  | leaf _ t => [t]
  | node _ left right => left.yield ++ right.yield

/-- The number of terminals at the leaves. -/
def size : ChomskyTree → Nat
  | empty _ => 0
  | leaf _ _ => 1
  | node _ left right => left.size + right.size

/-- The tree applies productions of `ps`, and the empty one at most alone. -/
def Follows (ps : List Production) : ChomskyTree → Prop
  | empty a => ⟨a, []⟩ ∈ ps
  | leaf a t => ⟨a, [.terminal t]⟩ ∈ ps
  | node a left right =>
    ⟨a, [.nonterminal left.root, .nonterminal right.root]⟩ ∈ ps ∧
      (left.Follows ps ∧ 0 < left.size) ∧ right.Follows ps ∧ 0 < right.size

theorem length_yield (τ : ChomskyTree) : τ.yield.length = τ.size := by
  induction τ with
  | empty a => rfl
  | leaf a t => rfl
  | node a left right ihl ihr => rw [yield, List.length_append, ihl, ihr, size]

/-- A tree is a derivation of its yield. -/
theorem Follows.derives {ps : List Production} {τ : ChomskyTree} (h : τ.Follows ps) :
    Derives ps [.nonterminal τ.root] τ.yield := by
  induction τ with
  | empty a => exact derives_single_iff.2 ⟨_, h, rfl, .nil⟩
  | leaf a t => exact derives_single_iff.2 ⟨_, h, rfl, .terminal .nil⟩
  | node a left right ihl ihr =>
    obtain ⟨hp, ⟨hl, -⟩, hr, -⟩ := h
    exact derives_single_iff.2 ⟨_, hp, rfl, (ihl hl).append (ihr hr)⟩

/-- A tree with leaves applies no empty production. -/
theorem Follows.nonempty {ps : List Production} {τ : ChomskyTree} (h : τ.Follows ps)
    (hsize : 0 < τ.size) : τ.Follows (nonempty ps) := by
  induction τ with
  | empty a => cases hsize
  | leaf a t => exact mem_nonempty.2 ⟨h, List.cons_ne_nil _ _⟩
  | node a left right ihl ihr =>
    obtain ⟨hp, ⟨hl, hl0⟩, hr, hr0⟩ := h
    exact ⟨mem_nonempty.2 ⟨hp, List.cons_ne_nil _ _⟩, ⟨ihl hl hl0, hl0⟩, ihr hr hr0, hr0⟩

end ChomskyTree

namespace Grammar

/-- **The derivation trees** of `a` with `n` terminals at the leaves. -/
def trees (g : Grammar) (a : Nonterminal) (n : Nat) : Set ChomskyTree :=
  {τ | τ.Follows g.productions ∧ τ.root = a ∧ τ.size = n}

variable {g : Grammar}

/-- A nonterminal that the grammar does not know has no trees. -/
theorem trees_eq_empty {a : Nonterminal} (ha : a ∉ g.nonterminals) (n : Nat) :
    g.trees a n = ∅ := by
  refine Set.eq_empty_of_forall_notMem fun τ hτ => ha ?_
  obtain ⟨hτ, rfl, -⟩ := hτ
  have hroot : ∃ p ∈ g.productions, p.lhs = τ.root := by
    cases τ with
    | empty a => exact ⟨_, hτ, rfl⟩
    | leaf a t => exact ⟨_, hτ, rfl⟩
    | node a left right => exact ⟨_, hτ.1, rfl⟩
  obtain ⟨p, hp, hlhs⟩ := hroot
  exact mem_sortedDistinct.2 (List.mem_cons_of_mem _
    (List.mem_flatMap.2 ⟨p, hp, hlhs ▸ List.mem_cons_self ..⟩))

/-- A production in Chomsky normal form, by its right-hand side. -/
theorem rhs_cases (hg : g.isChomsky = true) {p : Production} (hp : p ∈ g.productions) :
    p.rhs = [] ∧ p.lhs = g.start ∨ (∃ t, p.rhs = [.terminal t]) ∨
      ∃ b c, p.rhs = [.nonterminal b, .nonterminal c] := by
  have h := List.all_eq_true.1 hg p hp
  unfold isChomskyProduction at h
  split at h
  · next hempty => exact .inl ⟨List.isEmpty_iff.1 hempty, of_decide_eq_true h⟩
  · simp only [Bool.or_eq_true, Option.isSome_iff_exists, Prod.exists] at h
    simp only [Production.terminal?_eq_some, Production.binary?_eq_some] at h
    exact .inr h

/-- What derives without empty productions has a tree.  Both parts of a word that a binary
production splits are shorter, as neither is empty. -/
theorem exists_tree_of_derives (hg : g.isChomsky = true) {n : Nat} :
    ∀ {a : Nonterminal} {w : List Terminal}, w.length = n →
      Derives (nonempty g.productions) [.nonterminal a] w →
        ∃ τ : ChomskyTree, τ.Follows g.productions ∧ τ.root = a ∧ τ.yield = w := by
  induction n using Nat.strongRecOn with
  | ind n ih =>
    intro a w hn h
    obtain ⟨p, hp, rfl, hw⟩ := derives_single_iff.1 h
    obtain ⟨hp, hne⟩ := mem_nonempty.1 hp
    obtain ⟨a, r⟩ := p
    rcases rhs_cases hg hp with ⟨hr, -⟩ | ⟨t, hr⟩ | ⟨b, c, hr⟩
    · exact absurd hr hne
    · obtain rfl : r = _ := hr
      obtain ⟨v, rfl, hv⟩ := derives_terminal_cons_iff.1 hw
      obtain rfl := derives_nil_iff.1 hv
      exact ⟨.leaf a t, hp, rfl, rfl⟩
    · obtain rfl : r = _ := hr
      obtain ⟨u, v, rfl, hu, hv⟩ := derives_nonterminal_cons_iff.1 hw
      have hu0 : 0 < u.length := List.length_pos_iff.2 fun h0 =>
        List.cons_ne_nil _ _ (eq_nil_of_derives_nonempty hu h0)
      have hv0 : 0 < v.length := List.length_pos_iff.2 fun h0 =>
        List.cons_ne_nil _ _ (eq_nil_of_derives_nonempty hv h0)
      rw [List.length_append] at hn
      obtain ⟨left, hl, rfl, rfl⟩ := ih u.length (by omega) rfl hu
      obtain ⟨right, hr, rfl, rfl⟩ := ih v.length (by omega) rfl hv
      rw [ChomskyTree.length_yield] at hu0 hv0
      exact ⟨.node a left right, ⟨hp, ⟨hl, hu0⟩, hr, hv0⟩, rfl, rfl⟩

/-- **Trees with leaves are the derivations without empty productions.** -/
theorem exists_tree_iff_derives (hg : g.isChomsky = true) {a : Nonterminal} {w : List Terminal}
    (hw : w ≠ []) : (∃ τ ∈ g.trees a w.length, τ.yield = w) ↔
      Derives (nonempty g.productions) [.nonterminal a] w := by
  constructor
  · rintro ⟨τ, ⟨hτ, rfl, hsize⟩, rfl⟩
    exact (hτ.nonempty (hsize ▸ List.length_pos_iff.2 hw)).derives
  · intro h
    obtain ⟨τ, hτ, hroot, rfl⟩ := exists_tree_of_derives hg rfl h
    exact ⟨τ, ⟨hτ, hroot, τ.length_yield.symm⟩, rfl⟩

end Grammar

end GrammarSampler
