import GrammarSampler.Proofs.TreeDrawing
import Mathlib.Tactic.FieldSimp
import Mathlib.Tactic.Ring

/-!
# All derivation trees are equally likely

Where the count is positive, `drawTree` draws every tree of its id and size with the probability
`1 / count`, and no other tree (`Counts.probability_drawTree`), by induction on the size: a split is
chosen with the number of its trees as weight, and a production with the sum of its splits, so that
each choice cancels the count of the one before.  The choices along one tree multiply to the same
number (`Counts.likelihood_eq`).

What `Generator.generateFrom` yields is the yield of the tree that is drawn, so it follows the
choices of every tree with this probability (`generateFrom_uniform`).
-/

namespace GrammarSampler

/-- At most one index counts. -/
theorem sum_ite_of_unique {n : Nat} {P : Nat → Prop} [DecidablePred P] {Q : Prop} [Decidable Q]
    (hQ : (∃ k < n, P k) ↔ Q) (hunique : ∀ j < n, ∀ k < n, P j → P k → j = k) :
    (∑ k ∈ Finset.range n, if P k then (1 : ℚ) else 0) = if Q then 1 else 0 := by
  by_cases h : Q
  · obtain ⟨k, hk, hP⟩ := hQ.2 h
    rw [if_pos h, Finset.sum_eq_single_of_mem k (Finset.mem_range.2 hk), if_pos hP]
    intro j hj hne
    exact if_neg fun hj' => hne (hunique j (Finset.mem_range.1 hj) k hk hj' hP)
  · rw [if_neg h]
    exact Finset.sum_eq_zero fun k hk => if_neg fun hP => h (hQ.1 ⟨k, Finset.mem_range.1 hk, hP⟩)

namespace DerivationTable

open scoped Classical

variable {g : Grammar} {t : DerivationTable} {i n : Nat}

/-- A production with trees for one of its splits has a positive weight. -/
theorem Counts.splitSum_pos (h : t.Counts g) (hn : n ≤ t.maxLength) {b c k : Nat}
    (hk : k < n - 1) {left right : ChomskyTree} (hl : left ∈ t.trees g b (k + 1))
    (hr : right ∈ t.trees g c (n - (k + 1))) : 0 < t.splitSum b c n := by
  have hb := (h.entry_pos_iff (by omega)).2 ⟨_, hl⟩
  have hc := (h.entry_pos_iff (by omega)).2 ⟨_, hr⟩
  have hle : t.splitCount b c n (k + 1) ≤ t.splitSum b c n :=
    le_total_of_mem (List.mem_map.2 ⟨k, List.mem_range.2 hk, rfl⟩)
  exact Nat.lt_of_lt_of_le (Nat.mul_pos hb hc) hle

/-! ### The probability of a tree -/

/-- The drawing yields the members of `s` with the probability `1 / count` each, and nothing
else. -/
def UniformOn (d : Drawing ChomskyTree) (s : Set ChomskyTree) (count : Nat) : Prop :=
  ∀ τ, d.probability τ = if τ ∈ s then 1 / (count : ℚ) else 0

theorem Counts.uniform_leaf (h : t.Counts g) {a : Nonterminal} (hi : t.numbering.id? a = some i)
    (depth : Nat) : UniformOn (t.drawTree (depth + 1) i 1) (t.trees g i 1) (t.entry i 1) := by
  intro τ
  have hmem : (∃ k < (t.rulesOf i).terminals.length,
      ChomskyTree.leaf (t.nameOf i) ((t.rulesOf i).terminals.getD k default) = τ) ↔
        τ ∈ t.trees g i 1 := by
    rw [← (h.lists_leaves hi).mem_iff, nameOf_eq hi, List.mem_map]
    constructor
    · rintro ⟨k, hk, rfl⟩
      exact ⟨_, getD_mem hk, rfl⟩
    · rintro ⟨x, hx, rfl⟩
      obtain ⟨k, hk, rfl⟩ := exists_getD_eq hx
      exact ⟨k, hk, rfl⟩
  have hsum := sum_ite_of_unique hmem fun j hj k hk hjτ hkτ =>
    getD_inj (h.nodup_terminals i) hj hk (ChomskyTree.leaf.inj (hjτ.trans hkτ.symm)).2
  rw [h.entry_one, Drawing.probability, drawTree, if_pos rfl, Drawing.place, Drawing.expect]
  simp only [Drawing.expect]
  rw [hsum, ite_div, zero_div]

section node

variable {draw : Nat → Nat → Drawing ChomskyTree} (h : t.Counts g) (hn : n ≤ t.maxLength)
  (hdraw : ∀ m, 0 < m → m < n → ∀ j, 0 < t.entry j m →
    UniformOn (draw j m) (t.trees g j m) (t.entry j m))
include h hn hdraw

/-- The number of trees of a split cancels the probabilities of its two trees. -/
theorem Counts.splitCount_mul_probability {b c k : Nat} (hk : k < n - 1)
    (left right : ChomskyTree) : (t.splitCount b c n (k + 1) : ℚ) *
      ((draw b (k + 1)).probability left * (draw c (n - (k + 1))).probability right) =
      if left ∈ t.trees g b (k + 1) ∧ right ∈ t.trees g c (n - (k + 1)) then 1 else 0 := by
  by_cases hpos : 0 < t.entry b (k + 1) ∧ 0 < t.entry c (n - (k + 1))
  · obtain ⟨hb, hc⟩ := hpos
    have hb' : (t.entry b (k + 1) : ℚ) ≠ 0 := Nat.cast_ne_zero.2 hb.ne'
    have hc' : (t.entry c (n - (k + 1)) : ℚ) ≠ 0 := Nat.cast_ne_zero.2 hc.ne'
    rw [hdraw _ (by omega) (by omega) b hb, hdraw _ (by omega) (by omega) c hc, splitCount,
      Nat.cast_mul]
    by_cases hl : left ∈ t.trees g b (k + 1)
    · by_cases hr : right ∈ t.trees g c (n - (k + 1))
      · rw [if_pos hl, if_pos hr, if_pos ⟨hl, hr⟩]
        field_simp
      · simp [hr]
    · simp [hl]
  · have hzero : t.splitCount b c n (k + 1) = 0 := by
      by_contra hne
      exact hpos (Nat.mul_ne_zero_iff.1 hne |>.imp Nat.pos_of_ne_zero Nat.pos_of_ne_zero)
    rw [hzero, Nat.cast_zero, zero_mul, if_neg]
    rintro ⟨hl, hr⟩
    exact hpos ⟨(h.entry_pos_iff (by omega)).2 ⟨_, hl⟩, (h.entry_pos_iff (by omega)).2 ⟨_, hr⟩⟩

/-- The sum of the splits of a production cancels the choice of a split. -/
theorem Counts.splitSum_mul_probability (b c : Nat) (a : Nonterminal) (left right : ChomskyTree) :
    (t.splitSum b c n : ℚ) * (t.drawSplit draw a b c n).probability (.node a left right) =
      if ∃ k < n - 1, left ∈ t.trees g b (k + 1) ∧ right ∈ t.trees g c (n - (k + 1))
        then 1 else 0 := by
  have hsum : ∑ k ∈ Finset.range (n - 1), ((t.splitCounts b c n).getD k 0 : ℚ) *
      (Drawing.both (ChomskyTree.node a) (draw b (k + 1))
        (draw c (n - (k + 1)))).probability (.node a left right) =
      if ∃ k < n - 1, left ∈ t.trees g b (k + 1) ∧ right ∈ t.trees g c (n - (k + 1))
        then 1 else 0 := by
    rw [← sum_ite_of_unique Iff.rfl]
    · refine Finset.sum_congr rfl fun k hk => ?_
      have hk := Finset.mem_range.1 hk
      rw [getD_splitCounts hk, Drawing.probability_both fun _ _ _ _ heq =>
        (ChomskyTree.node.inj heq).2, h.splitCount_mul_probability hn hdraw hk]
    · intro j _ k _ hj hk
      have hsj : left.size = j + 1 := hj.1.2.2
      have hsk : left.size = k + 1 := hk.1.2.2
      omega
  have hprob : (t.drawSplit draw a b c n).probability (.node a left right) =
      (if ∃ k < n - 1, left ∈ t.trees g b (k + 1) ∧ right ∈ t.trees g c (n - (k + 1))
        then 1 else 0) / (t.splitSum b c n : ℚ) := by
    rw [← hsum, Drawing.probability, drawSplit, Drawing.expect_weighted, length_splitCounts]
    rfl
  rcases Nat.eq_zero_or_pos (t.splitSum b c n) with hzero | hpos
  · -- no split has trees, so none has these two
    rw [hzero, Nat.cast_zero, zero_mul, if_neg]
    rintro ⟨k, hk, hl, hr⟩
    exact absurd (h.splitSum_pos hn hk hl hr) (by omega)
  · rw [hprob, mul_div_cancel₀ _ (Nat.cast_ne_zero.2 hpos.ne')]

end node

/-- The trees with several terminals, by the places of their productions and splits. -/
theorem Counts.node_mem_trees_iff (h : t.Counts g) {a : Nonterminal}
    (hi : t.numbering.id? a = some i) (h2 : 2 ≤ n) {left right : ChomskyTree} :
    (∃ j < (t.rulesOf i).pairs.length, ∃ k < n - 1,
      left ∈ t.trees g ((t.rulesOf i).pairs.getD j default).1 (k + 1) ∧
        right ∈ t.trees g ((t.rulesOf i).pairs.getD j default).2 (n - (k + 1))) ↔
      ChomskyTree.node a left right ∈ t.trees g i n := by
  rw [h.mem_trees_iff hi h2]
  constructor
  · rintro ⟨j, hj, k, hk, hl, hr⟩
    have hsl : left.size = _ := hl.2.2
    have hsr : right.size = _ := hr.2.2
    exact ⟨_, getD_mem hj, left, right, rfl, ⟨_, by omega, hl⟩, ⟨_, by omega, hr⟩, by omega⟩
  · rintro ⟨bc, hbc, l, r, heq, ⟨m, hm, hl⟩, ⟨m', hm', hr⟩, hsize⟩
    obtain ⟨-, rfl, rfl⟩ := ChomskyTree.node.inj heq
    obtain ⟨j, hj, rfl⟩ := exists_getD_eq hbc
    have hsl : left.size = m := hl.2.2
    have hsr : right.size = m' := hr.2.2
    obtain ⟨k, rfl⟩ : ∃ k, m = k + 1 := ⟨m - 1, by omega⟩
    obtain rfl : m' = n - (k + 1) := by omega
    exact ⟨j, hj, k, by omega, hl, hr⟩

/-- A split makes nodes only. -/
theorem probability_drawSplit_eq_zero (draw : Nat → Nat → Drawing ChomskyTree) (b c n : Nat)
    {a : Nonterminal} {τ : ChomskyTree} (hne : ∀ left right, ChomskyTree.node a left right ≠ τ) :
    (t.drawSplit draw a b c n).probability τ = 0 := by
  rw [Drawing.probability, drawSplit, Drawing.expect_weighted]
  have hzero : ∀ k, (Drawing.both (ChomskyTree.node a) (draw b (k + 1))
      (draw c (n - (k + 1)))).expect (fun σ => if σ = τ then (1 : ℚ) else 0) = 0 :=
    fun k => Drawing.probability_both_eq_zero hne _ _
  simp only [hzero, mul_zero, Finset.sum_const_zero, zero_div]

theorem Counts.uniform_node (h : t.Counts g) {a : Nonterminal} (hi : t.numbering.id? a = some i)
    (h2 : 2 ≤ n) (hn : n ≤ t.maxLength) {depth : Nat}
    (hdraw : ∀ m, 0 < m → m < n → ∀ j, 0 < t.entry j m →
      UniformOn (t.drawTree depth j m) (t.trees g j m) (t.entry j m)) :
    UniformOn (t.drawTree (depth + 1) i n) (t.trees g i n) (t.entry i n) := by
  intro τ
  have hprob : (t.drawTree (depth + 1) i n).probability τ =
      (∑ j ∈ Finset.range (t.rulesOf i).pairs.length, ((t.pairSums i n).getD j 0 : ℚ) *
        (t.drawSplit (t.drawTree depth) a ((t.rulesOf i).pairs.getD j default).1
          ((t.rulesOf i).pairs.getD j default).2 n).probability τ) / t.entry i n := by
    rw [Drawing.probability, drawTree, if_neg (by omega), Drawing.expect_weighted, length_pairSums,
      ← h.entry_eq i n h2 hn, nameOf_eq hi]
    rfl
  by_cases hnode : ∃ left right, τ = .node a left right
  · obtain ⟨left, right, rfl⟩ := hnode
    rw [hprob, ← zero_div, ← ite_div, ← sum_ite_of_unique (h.node_mem_trees_iff hi h2)]
    · congr 1
      refine Finset.sum_congr rfl fun j hj => ?_
      rw [getD_pairSums (Finset.mem_range.1 hj), h.splitSum_mul_probability hn hdraw]
    · rintro j hj k hk ⟨m, _, hl, hr⟩ ⟨m', _, hl', hr'⟩
      refine getD_inj (h.nodup_pairs i) hj hk (Prod.ext ?_ ?_)
      · exact Option.some.inj (hl.2.1.symm.trans hl'.2.1)
      · exact Option.some.inj (hr.2.1.symm.trans hr'.2.1)
  · have hne : ∀ left right, ChomskyTree.node a left right ≠ τ :=
      fun left right heq => hnode ⟨left, right, heq.symm⟩
    rw [hprob, if_neg]
    · simp only [probability_drawSplit_eq_zero _ _ _ _ hne, mul_zero, Finset.sum_const_zero,
        zero_div]
    · intro hτ
      obtain ⟨-, -, left, right, heq, -⟩ := (h.mem_trees_iff hi h2).1 hτ
      exact hnode ⟨left, right, heq⟩

/-- **All trees of an id and a size are equally likely**, and nothing else is drawn. -/
theorem Counts.probability_drawTree (h : t.Counts g) : ∀ {n : Nat}, 0 < n → n ≤ t.maxLength →
    ∀ {depth : Nat}, n ≤ depth → ∀ {i : Nat}, 0 < t.entry i n →
      UniformOn (t.drawTree depth i n) (t.trees g i n) (t.entry i n) := by
  intro n
  induction n using Nat.strongRecOn with
  | ind n ih =>
    intro hpos hn depth hdepth i hcount
    obtain ⟨depth, rfl⟩ : ∃ d, depth = d + 1 := ⟨depth - 1, by omega⟩
    rcases t.id_cases g i with ⟨a, hi⟩ | ⟨hi, -⟩
    · obtain rfl | h2 : n = 1 ∨ 2 ≤ n := by omega
      · exact h.uniform_leaf hi depth
      · exact h.uniform_node hi h2 hn fun m hm hlt j hj =>
          ih m hlt hm (by omega) (by omega) hj
    · rw [h.entry_of_unknown hi hn] at hcount
      cases hcount

/-! ### The choices along a tree -/

end DerivationTable

/-- The id of the root. -/
def ChomskyTree.rootId (t : DerivationTable) (τ : ChomskyTree) : Nat :=
  (t.numbering.id? τ.root).getD 0

/-- The product over all choices along a tree: at a leaf, one of the terminals; at a node, the share
of the production among all productions and that of the split among its splits. -/
def ChomskyTree.likelihood (t : DerivationTable) : ChomskyTree → ℚ
  | empty _ => 1
  | τ@(leaf _ _) => 1 / ((t.rulesOf (τ.rootId t)).terminals.length : ℚ)
  | τ@(node _ left right) =>
    (t.splitSum (left.rootId t) (right.rootId t) τ.size : ℚ) /
        total (t.pairSums (τ.rootId t) τ.size) *
      ((t.splitCount (left.rootId t) (right.rootId t) τ.size left.size : ℚ) /
        t.splitSum (left.rootId t) (right.rootId t) τ.size) *
      left.likelihood t * right.likelihood t

namespace DerivationTable

variable {g : Grammar} {t : DerivationTable} {i n : Nat}

theorem rootId_eq {τ : ChomskyTree} (hτ : τ ∈ t.trees g i n) : τ.rootId t = i := by
  rw [ChomskyTree.rootId, hτ.2.1, Option.getD_some]

/-- **The choices along a tree** multiply to one over the count: each choice cancels the count that
the one before has left. -/
theorem Counts.likelihood_eq (h : t.Counts g) {τ : ChomskyTree} (hpos : 0 < n)
    (hn : n ≤ t.maxLength) (hτ : τ ∈ t.trees g i n) :
    τ.likelihood t = 1 / (t.entry i n : ℚ) := by
  induction τ generalizing i n with
  | empty a => exact absurd (show 0 = n from hτ.2.2) (by omega)
  | leaf a x =>
    obtain rfl : 1 = n := hτ.2.2
    rw [ChomskyTree.likelihood, rootId_eq hτ, h.entry_one]
  | node a left right ihl ihr =>
    have hroot := rootId_eq hτ
    obtain ⟨⟨-, ⟨-, hl0⟩, -, hr0⟩, hi, hsize⟩ := id hτ
    have h2 : 2 ≤ n := hsize ▸ Nat.add_le_add hl0 hr0
    obtain ⟨bc, -, l, r, heq, ⟨m, hm, hl⟩, ⟨m', hm', hr⟩, hsum⟩ := (h.mem_trees_iff hi h2).1 hτ
    obtain ⟨-, rfl, rfl⟩ := ChomskyTree.node.inj heq
    have hlsize : left.size = m := hl.2.2
    have hrsize : right.size = m' := hr.2.2
    obtain ⟨k, rfl⟩ : ∃ k, m = k + 1 := ⟨m - 1, by omega⟩
    obtain rfl : m' = n - (k + 1) := by omega
    have hb := (h.entry_pos_iff (by omega)).2 ⟨_, hl⟩
    have hc := (h.entry_pos_iff (by omega)).2 ⟨_, hr⟩
    have hs := h.splitSum_pos hn (by omega) hl hr
    have hb' : (t.entry bc.1 (k + 1) : ℚ) ≠ 0 := Nat.cast_ne_zero.2 hb.ne'
    have hc' : (t.entry bc.2 (n - (k + 1)) : ℚ) ≠ 0 := Nat.cast_ne_zero.2 hc.ne'
    have hs' : (t.splitSum bc.1 bc.2 n : ℚ) ≠ 0 := Nat.cast_ne_zero.2 hs.ne'
    rw [ChomskyTree.likelihood, ihl hm (by omega) hl, ihr hm' (by omega) hr, hroot, rootId_eq hl,
      rootId_eq hr, hsize, hlsize, splitCount, ← h.entry_eq i n h2 hn, Nat.cast_mul]
    field_simp

end DerivationTable

/-! ### Generation -/

/-- **Generation is uniform.**  Where the count is positive, what is generated is the yield of a
tree that is drawn from the source, whatever the source is.  When all draws are uniform, each tree
is drawn with the probability `1 / count`, which is also the product of the shares of all its
choices. -/
theorem generateFrom_uniform {g : Grammar} {t₀ t u : DerivationTable} {calls : List TableCall}
    {a : Nonterminal} {n k : Nat} (h : DerivationTable.ofGrammar? g = some t₀)
    (ht : t₀.runCalls calls = some t) (hn : 0 < n) (hu : t.count? a n = some (k, u)) (hk : 0 < k) :
    (∀ s, Generator.generateFrom ⟨g, t, s⟩ a n = (.ok ((u.drawing a n).run s).1.yield,
        ⟨g, u, ((u.drawing a n).run s).2⟩) ∧ ((u.drawing a n).run s).1 ∈ g.trees a n) ∧
      ∀ τ ∈ g.trees a n, (u.drawing a n).probability τ = 1 / (k : ℚ) ∧
        τ.likelihood u = 1 / (k : ℚ) := by
  obtain ⟨-, rfl⟩ := DerivationTable.ofGrammar?_eq_some_iff.1 h
  have hc := (DerivationTable.counts_ofGrammar g).runCalls ht
  refine ⟨fun s => generateFrom_eq_drawing ⟨g, t, s⟩ hc hn hu hk, fun τ hτ => ?_⟩
  obtain ⟨hcu, ⟨-, rfl⟩ | ⟨i, -, hi, -, hsize, rfl⟩⟩ := hc.of_count? hu
  · cases hk
  · rw [← DerivationTable.trees_eq hi] at hτ
    rw [DerivationTable.drawing_eq hi]
    refine ⟨?_, hcu.likelihood_eq hn hsize hτ⟩
    rw [hcu.probability_drawTree hn hsize (Nat.le_refl n) hk τ, if_pos hτ]

/-- Each of the five bracketings of four letters is drawn with the same probability. -/
theorem generateFrom_uniform_bracketings : ∃ u,
    (DerivationTable.ofGrammar Grammar.bracketings).count? ⟨"S"⟩ 4 = some (5, u) ∧
      ∀ τ ∈ Grammar.bracketings.trees ⟨"S"⟩ 4,
        (u.drawing ⟨"S"⟩ 4).probability τ = 1 / (5 : Nat) ∧ τ.likelihood u = 1 / (5 : Nat) := by
  have hcount : ((DerivationTable.ofGrammar Grammar.bracketings).count? ⟨"S"⟩ 4).map
      Prod.fst = some 5 := by decide +kernel
  obtain ⟨⟨k, u⟩, hu, rfl⟩ := Option.map_eq_some_iff.1 hcount
  have h := generateFrom_uniform (g := Grammar.bracketings) rfl
    (show (DerivationTable.ofGrammar Grammar.bracketings).runCalls [] = some _ from rfl)
    (show 0 < 4 by decide) hu (show 0 < 5 by decide)
  exact ⟨u, hu, h.2⟩

end GrammarSampler
