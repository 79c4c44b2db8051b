import GrammarSampler.Proofs.Drawings
import GrammarSampler.Proofs.RecursiveSampling
import GrammarSampler.Proofs.TreeCounts

/-!
# The string that is derived is that of a drawn tree

`DerivationTable.drawTree` draws a tree from the root to the leaves: a terminal for a leaf; for a
node a production, a split, the left tree and then the right one.  The recursion that derives a
string makes the same draws in the same order, and its string is the yield of the tree that is drawn
(`Counts.recursiveString_eq`).  So, where the count is positive, a string is always generated, and
it is the yield of a tree of the right root and size (`generateFrom_eq_drawing`).
-/

namespace GrammarSampler

/-! ### Places in a list -/

section places

variable {α : Type} [Inhabited α] {xs : List α}

theorem getD_mem {k : Nat} (hk : k < xs.length) : xs.getD k default ∈ xs := by
  rw [List.getD_eq_getElem?_getD, List.getElem?_eq_getElem hk]
  exact List.getElem_mem hk

theorem exists_getD_eq {x : α} (hx : x ∈ xs) : ∃ k < xs.length, xs.getD k default = x := by
  obtain ⟨k, hk, rfl⟩ := List.getElem_of_mem hx
  exact ⟨k, hk, by rw [List.getD_eq_getElem?_getD, List.getElem?_eq_getElem hk, Option.getD_some]⟩

theorem getD_inj (h : xs.Nodup) {j k : Nat} (hj : j < xs.length) (hk : k < xs.length)
    (heq : xs.getD j default = xs.getD k default) : j = k := by
  rw [List.getD_eq_getElem?_getD, List.getD_eq_getElem?_getD, List.getElem?_eq_getElem hj,
    List.getElem?_eq_getElem hk] at heq
  exact (List.getElem_inj h).1 heq

end places

/-! ### Drawing a tree -/

namespace DerivationTable

/-- The nonterminal with the id `i`. -/
def nameOf (t : DerivationTable) (i : Nat) : Nonterminal := (t.numbering.get? i).getD default

/-- Draws a split of `n` terminals for the ids `b` and `c`, then the left tree and the right tree of
a node of `a`. -/
def drawSplit (t : DerivationTable) (draw : Nat → Nat → Drawing ChomskyTree) (a : Nonterminal)
    (b c n : Nat) : Drawing ChomskyTree :=
  .weighted (t.splitCounts b c n) fun k =>
    .both (ChomskyTree.node a) (draw b (k + 1)) (draw c (n - (k + 1)))

/-- Draws a tree of the id `i` with `n` terminals, which is at most `depth` productions high. -/
def drawTree (t : DerivationTable) : Nat → Nat → Nat → Drawing ChomskyTree
  | 0, i, _ => .pure (.empty (t.nameOf i))
  | depth + 1, i, n =>
    if n = 1 then
      .place (t.rulesOf i).terminals.length fun k =>
        .pure (.leaf (t.nameOf i) ((t.rulesOf i).terminals.getD k default))
    else
      .weighted (t.pairSums i n) fun j =>
        let bc := (t.rulesOf i).pairs.getD j default
        t.drawSplit (t.drawTree depth) (t.nameOf i) bc.1 bc.2 n

variable {g : Grammar} {t : DerivationTable} {i n : Nat}

theorem nameOf_eq {a : Nonterminal} (hi : t.numbering.id? a = some i) : t.nameOf i = a := by
  rw [nameOf, Numbering.id?_eq_some_iff.1 hi, Option.getD_some]

/-! ### Single choices -/

/-- **A part of one terminal** becomes the leaf that is drawn. -/
theorem chooseTerminal_eq (h : 0 < (t.rulesOf i).terminals.length) (s : Source) :
    ∃ x s', x ∈ (t.rulesOf i).terminals ∧ t.chooseTerminal i s = (.ok x, s') ∧
      ∀ depth, (t.drawTree (depth + 1) i 1).run s = (.leaf (t.nameOf i) x, s') := by
  have hk := s.inRange_lt h
  refine ⟨(t.rulesOf i).terminals.getD (s.inRange 0 ((t.rulesOf i).terminals.length - 1)).1 default,
    (s.inRange 0 ((t.rulesOf i).terminals.length - 1)).2, getD_mem hk, ?_, fun depth => rfl⟩
  unfold chooseTerminal
  rw [if_neg (List.ne_nil_of_length_pos h)]

theorem length_pairSums (t : DerivationTable) (i n : Nat) :
    (t.pairSums i n).length = (t.rulesOf i).pairs.length :=
  List.length_map _

theorem getD_pairSums {j : Nat} (hj : j < (t.rulesOf i).pairs.length) :
    (t.pairSums i n).getD j 0 = t.splitSum ((t.rulesOf i).pairs.getD j default).1
      ((t.rulesOf i).pairs.getD j default).2 n := by
  simp [pairSums, List.getD_eq_getElem?_getD, hj]

theorem getD_splitCounts {b c k : Nat} (hk : k < n - 1) :
    (t.splitCounts b c n).getD k 0 = t.splitCount b c n (k + 1) := by
  simp [splitCounts, List.getD_eq_getElem?_getD, hk]

/-- A production is chosen with the sum of its splits as weight, so that it has some. -/
theorem Counts.choosePair_eq (h : t.Counts g) (h2 : 2 ≤ n) (hn : n ≤ t.maxLength)
    (hcount : 0 < t.entry i n) (s : Source) :
    ∃ bc ∈ (t.rulesOf i).pairs, 0 < t.splitSum bc.1 bc.2 n ∧
      bc = (t.rulesOf i).pairs.getD (chosenIndex (t.pairSums i n)
        (s.below (total (t.pairSums i n))).1) default ∧
      t.choosePair i n s = (.ok bc, (s.below (total (t.pairSums i n))).2) := by
  have htotal : 0 < total (t.pairSums i n) := h.entry_eq i n h2 hn ▸ hcount
  obtain ⟨-, hj, hpos⟩ := chosenIndex_spec (s.below_lt htotal)
  rw [length_pairSums] at hj
  rw [getD_pairSums hj] at hpos
  exact ⟨_, getD_mem hj, hpos, rfl, by
    rw [choosePair, h.entry_eq i n h2 hn, chooseWeighted_eq htotal]⟩

/-- A split is chosen with the number of its trees as weight, so that there are trees on both
sides. -/
theorem chooseSplit_eq {b c : Nat} (hsum : 0 < t.splitSum b c n) (s : Source) :
    ∃ k < n - 1, 0 < t.entry b (k + 1) ∧ 0 < t.entry c (n - (k + 1)) ∧
      k = chosenIndex (t.splitCounts b c n) (s.below (total (t.splitCounts b c n))).1 ∧
      t.chooseSplit b c n s = (.ok (k + 1), (s.below (total (t.splitCounts b c n))).2) := by
  obtain ⟨-, hk, hpos⟩ := chosenIndex_spec (s.below_lt hsum)
  rw [length_splitCounts] at hk
  rw [getD_splitCounts hk, splitCount] at hpos
  refine ⟨_, hk, Nat.pos_of_mul_pos_right hpos, Nat.pos_of_mul_pos_left hpos, rfl, ?_⟩
  rw [chooseSplit, splitSum, chooseWeighted_eq hsum]

/-- **A string of several terminals is split** as the tree that is drawn. -/
theorem Counts.split_eq (h : t.Counts g) (h2 : 2 ≤ n) (hn : n ≤ t.maxLength)
    (hcount : 0 < t.entry i n) (s : Source) :
    ∃ b c k s₁ s₂, (b, c) ∈ (t.rulesOf i).pairs ∧ k < n - 1 ∧ 0 < t.entry b (k + 1) ∧
      0 < t.entry c (n - (k + 1)) ∧ t.choosePair i n s = (.ok (b, c), s₁) ∧
      t.chooseSplit b c n s₁ = (.ok (k + 1), s₂) ∧
      ∀ depth, (t.drawTree (depth + 1) i n).run s =
        (Drawing.both (.node (t.nameOf i)) (t.drawTree depth b (k + 1))
          (t.drawTree depth c (n - (k + 1)))).run s₂ := by
  obtain ⟨⟨b, c⟩, hbc, hsum, hj, hpair⟩ := h.choosePair_eq h2 hn hcount s
  obtain ⟨k, hk, hb, hc, hchosen, hsplit⟩ :=
    chooseSplit_eq hsum (s.below (total (t.pairSums i n))).2
  refine ⟨b, c, k, _, _, hbc, hk, hb, hc, hpair, hsplit, fun depth => ?_⟩
  rw [drawTree, if_neg (by omega)]
  simp only [drawSplit, Drawing.weighted, Drawing.run, Source.draw, ← hj, ← hchosen]

/-! ### The whole string -/

/-- **The recursion** makes the draws of the tree, and its string is the yield. -/
theorem Counts.recursiveString_eq (h : t.Counts g) :
    ∀ {n depth i : Nat}, 0 < n → n ≤ t.maxLength → n ≤ depth → 0 < t.entry i n → ∀ s,
      ∃ τ s', (t.drawTree depth i n).run s = (τ, s') ∧ τ ∈ t.trees g i n ∧
        t.recursiveString i n s = (.ok τ.yield, s') := by
  intro n
  induction n using Nat.strongRecOn with
  | ind n ih =>
    intro depth i hpos hn hdepth hcount s
    obtain ⟨depth, rfl⟩ : ∃ d, depth = d + 1 := ⟨depth - 1, by omega⟩
    obtain ⟨a, hi⟩ : ∃ a, t.numbering.id? a = some i := by
      rcases t.id_cases g i with hi | ⟨hi, -⟩
      · exact hi
      · rw [h.entry_of_unknown hi hn] at hcount
        cases hcount
    obtain rfl | h2 : n = 1 ∨ 2 ≤ n := by omega
    · rw [h.entry_one] at hcount
      obtain ⟨x, s', hx, hchoose, hdraw⟩ := chooseTerminal_eq hcount s
      refine ⟨.leaf (t.nameOf i) x, s', hdraw depth, ?_, ?_⟩
      · rw [nameOf_eq hi]
        exact ((h.lists_leaves hi).mem_iff _).1 (List.mem_map_of_mem hx)
      · exact recursiveString_one_eq_ok_iff.2 ⟨x, rfl, hchoose⟩
    · obtain ⟨b, c, k, s₁, s₂, hbc, hk, hb, hc, hpair, hsplit, hdraw⟩ := h.split_eq h2 hn hcount s
      have hldepth : k + 1 ≤ depth := by omega
      have hrdepth : n - (k + 1) ≤ depth := by omega
      obtain ⟨left, s₃, hleft, hlmem, hlrec⟩ :=
        ih (k + 1) (by omega) (by omega) (by omega) hldepth hb s₂
      obtain ⟨right, s', hright, hrmem, hrrec⟩ :=
        ih (n - (k + 1)) (by omega) (by omega) (by omega) hrdepth hc s₃
      refine ⟨.node (t.nameOf i) left right, s', ?_, ?_, ?_⟩
      · rw [hdraw, Drawing.run_both, hleft, hright]
      · rw [nameOf_eq hi]
        refine (h.mem_trees_iff hi h2).2 ⟨(b, c), hbc, left, right, rfl, ⟨_, by omega, hlmem⟩,
          ⟨_, by omega, hrmem⟩, ?_⟩
        have hl : left.size = _ := hlmem.2.2
        have hr : right.size = _ := hrmem.2.2
        omega
      · exact (recursiveString_eq_ok_iff (by omega)).2
          ⟨b, c, k + 1, _, _, s₁, s₂, s₃, rfl, hpair, hsplit, hlrec, hrrec⟩

/-- The string that is derived is the yield of the tree that is drawn. -/
theorem Counts.deriveString_eq (h : t.Counts g) (hpos : 0 < n) (hn : n ≤ t.maxLength)
    (hcount : 0 < t.entry i n) (s : Source) :
    t.deriveString i n s =
        (.ok ((t.drawTree n i n).run s).1.yield, ((t.drawTree n i n).run s).2) ∧
      ((t.drawTree n i n).run s).1 ∈ t.trees g i n := by
  obtain ⟨τ, s', hrun, hτ, hrec⟩ := h.recursiveString_eq hpos hn (Nat.le_refl n) hcount s
  rw [hrun]
  exact ⟨deriveString_of_recursiveString hrec, hτ⟩

/-- Draws a tree of `a` with `n` terminals. -/
def drawing (t : DerivationTable) (a : Nonterminal) (n : Nat) : Drawing ChomskyTree :=
  t.drawTree n ((t.numbering.id? a).getD 0) n

theorem drawing_eq {a : Nonterminal} (hi : t.numbering.id? a = some i) (n : Nat) :
    t.drawing a n = t.drawTree n i n := by
  rw [drawing, hi, Option.getD_some]

end DerivationTable

/-- **Generation from a nonterminal with a positive count** yields the terminals of the tree that is
drawn. -/
theorem generateFrom_eq_drawing (gen : Generator) (h : gen.table.Counts gen.grammar)
    {a : Nonterminal} {n k : Nat} {u : DerivationTable} (hn : 0 < n)
    (hu : gen.table.count? a n = some (k, u)) (hk : 0 < k) :
    gen.generateFrom a n = (.ok ((u.drawing a n).run gen.source).1.yield,
        ⟨gen.grammar, u, ((u.drawing a n).run gen.source).2⟩) ∧
      ((u.drawing a n).run gen.source).1 ∈ gen.grammar.trees a n := by
  obtain ⟨hc, ⟨-, rfl⟩ | ⟨i, hi, hui, hext, hsize, rfl⟩⟩ := h.of_count? hu
  · cases hk
  obtain ⟨hderive, hτ⟩ := hc.deriveString_eq hn hsize hk gen.source
  rw [DerivationTable.drawing_eq hui, ← DerivationTable.trees_eq hui]
  refine ⟨?_, hτ⟩
  unfold Generator.generateFrom
  simp only [hi, if_neg (Nat.pos_iff_ne_zero.1 hn), hext, if_neg (Nat.pos_iff_ne_zero.1 hk),
    hderive]

end GrammarSampler
