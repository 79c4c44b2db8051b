import GrammarSampler.Proofs.ChomskyTrees
import GrammarSampler.Proofs.TableInvariant
import Mathlib.Data.List.Nodup
import Mathlib.Data.Set.Card

/-!
# The counts are numbers of trees

For every length, the trees of an id can be listed without repetition, and the list is as long as
the entry of the table says (`Counts.exists_lists`).  The list follows the recurrence: the nodes for
one binary production and one split are the pairs of a left and a right tree (`nodes`), and
different productions or splits make different nodes.  So the counts that a session of calls answers
are the numbers of derivation trees (`count?_eq_encard_trees`); lengths that there is no room for
get no answer.
-/

namespace GrammarSampler

/-! ### Lists without repetitions -/

theorem length_flatMap_eq_total {α β : Type} (f : α → List β) (xs : List α) :
    (xs.flatMap f).length = total (xs.map fun x => (f x).length) := by
  induction xs with
  | nil => rfl
  | cons x xs ih => rw [List.flatMap_cons, List.length_append, ih, List.map_cons, total]

theorem nodup_filterMap_of_inj {α β : Type} {f : α → Option β} {xs : List α} (h : xs.Nodup)
    (hf : ∀ x ∈ xs, ∀ y ∈ xs, ∀ b, f x = some b → f y = some b → x = y) :
    (xs.filterMap f).Nodup := by
  refine List.pairwise_filterMap.2 (List.Pairwise.imp_of_mem ?_ h)
  rintro x y hx hy hne b hb b' hb' rfl
  exact hne (hf x hx y hy b hb hb')

/-- The list holds the members of the set, each once. -/
structure Lists (xs : List ChomskyTree) (s : Set ChomskyTree) : Prop where
  nodup : xs.Nodup
  mem_iff : ∀ τ, τ ∈ xs ↔ τ ∈ s

theorem Lists.encard {xs : List ChomskyTree} {s : Set ChomskyTree} (h : Lists xs s) :
    s.encard = xs.length := by
  have hs : s = (xs.toFinset : Set ChomskyTree) := by
    ext τ
    rw [Finset.mem_coe, List.mem_toFinset, h.mem_iff]
  rw [hs, Set.encard_coe_eq_coe_finsetCard, List.toFinset_card_of_nodup h.nodup]

/-! ### The rules of an id -/

section rules

variable {g : Grammar} {x : Numbering} {ps : List Production} {a : Nonterminal}

theorem mem_terminals_ofProductions {t : Terminal} :
    t ∈ (RuleSet.ofProductions x ps a).terminals ↔ ⟨a, [.terminal t]⟩ ∈ ps := by
  simp only [RuleSet.ofProductions, List.mem_filterMap, List.mem_filter, decide_eq_true_eq,
    Production.terminal?_eq_some]
  constructor
  · rintro ⟨⟨_, _⟩, ⟨hp, rfl⟩, rfl⟩
    exact hp
  · exact fun hp => ⟨_, ⟨hp, rfl⟩, rfl⟩

theorem hasEmpty_ofProductions :
    (RuleSet.ofProductions x ps a).hasEmpty = true ↔ ⟨a, []⟩ ∈ ps := by
  simp only [RuleSet.ofProductions, List.any_eq_true, List.mem_filter, decide_eq_true_eq,
    Production.isEmpty, List.isEmpty_iff]
  constructor
  · rintro ⟨⟨_, _⟩, ⟨hp, rfl⟩, rfl⟩
    exact hp
  · exact fun hp => ⟨_, ⟨hp, rfl⟩, rfl⟩

theorem pair?_eq_some {p : Production} {j k : Nat} : p.pair? x = some (j, k) ↔
    ∃ b c, p.rhs = [.nonterminal b, .nonterminal c] ∧ x.id? b = some j ∧ x.id? c = some k := by
  unfold Production.pair?
  split
  · next h =>
    simp only [reduceCtorEq, false_iff]
    rintro ⟨b, c, hr, -⟩
    rw [Production.binary?_eq_some.2 hr] at h
    cases h
  · next b c h =>
    have hr := Production.binary?_eq_some.1 h
    simp only [hr, List.cons.injEq, Symbol.nonterminal.injEq, and_true]
    constructor
    · split
      · next hb hc =>
        intro h
        obtain ⟨rfl, rfl⟩ := Prod.mk.injEq .. ▸ Option.some.inj h
        exact ⟨b, c, ⟨rfl, rfl⟩, hb, hc⟩
      · exact fun h => nomatch h
    · rintro ⟨b', c', ⟨rfl, rfl⟩, hb, hc⟩
      simp only [hb, hc]

theorem mem_pairs_ofProductions {j k : Nat} : (j, k) ∈ (RuleSet.ofProductions x ps a).pairs ↔
    ∃ b c, ⟨a, [.nonterminal b, .nonterminal c]⟩ ∈ ps ∧ x.id? b = some j ∧ x.id? c = some k := by
  simp only [RuleSet.ofProductions, List.mem_filterMap, List.mem_filter, decide_eq_true_eq,
    pair?_eq_some]
  constructor
  · rintro ⟨⟨_, _⟩, ⟨hp, rfl⟩, b, c, rfl, hj, hk⟩
    exact ⟨b, c, hp, hj, hk⟩
  · rintro ⟨b, c, hp, hj, hk⟩
    exact ⟨_, ⟨hp, rfl⟩, b, c, rfl, hj, hk⟩

theorem nodup_terminals_ofProductions (h : ps.Nodup) :
    (RuleSet.ofProductions x ps a).terminals.Nodup := by
  refine nodup_filterMap_of_inj (h.filter _) ?_
  rintro ⟨_, _⟩ hp ⟨_, _⟩ hq t hpt hqt
  obtain rfl := Production.terminal?_eq_some.1 hpt
  obtain rfl := Production.terminal?_eq_some.1 hqt
  obtain rfl := of_decide_eq_true (List.mem_filter.1 hp).2
  obtain rfl := of_decide_eq_true (List.mem_filter.1 hq).2
  rfl

/-- Different binary productions of a nonterminal have different ids, as ids are different. -/
theorem nodup_pairs_ofProductions (h : ps.Nodup) :
    (RuleSet.ofProductions x ps a).pairs.Nodup := by
  refine nodup_filterMap_of_inj (h.filter _) ?_
  rintro ⟨_, _⟩ hp ⟨_, _⟩ hq ⟨j, k⟩ hpjk hqjk
  obtain ⟨b, c, rfl, hb, hc⟩ := pair?_eq_some.1 hpjk
  obtain ⟨b', c', rfl, hb', hc'⟩ := pair?_eq_some.1 hqjk
  obtain rfl := of_decide_eq_true (List.mem_filter.1 hp).2
  obtain rfl := of_decide_eq_true (List.mem_filter.1 hq).2
  rw [id?_inj hb hb', id?_inj hc hc']

end rules

/-! ### The trees of an id -/

namespace DerivationTable

variable {g : Grammar} {t : DerivationTable}

/-- The trees of `g` with the id `i` at the root and `n` terminals at the leaves. -/
def trees (t : DerivationTable) (g : Grammar) (i n : Nat) : Set ChomskyTree :=
  {τ | τ.Follows g.productions ∧ t.numbering.id? τ.root = some i ∧ τ.size = n}

theorem trees_eq {a : Nonterminal} {i n : Nat} (hi : t.numbering.id? a = some i) :
    t.trees g i n = g.trees a n := by
  ext τ
  refine and_congr_right fun _ => and_congr_left fun _ => ?_
  exact ⟨fun h => id?_inj h hi, fun h => h ▸ hi⟩

/-- The nodes of `a` with `n` terminals over a left and a right tree, where `lefts` and `rights`
list the trees by their numbers of terminals. -/
def nodes (a : Nonterminal) (lefts rights : Nat → List ChomskyTree) (n : Nat) :
    List ChomskyTree :=
  (List.range (n - 1)).flatMap fun k =>
    (lefts (k + 1)).flatMap fun left => (rights (n - (k + 1))).map (.node a left)

theorem length_nodes (a : Nonterminal) (lefts rights : Nat → List ChomskyTree) (n : Nat) :
    (nodes a lefts rights n).length = total ((List.range (n - 1)).map fun k =>
      (lefts (k + 1)).length * (rights (n - (k + 1))).length) := by
  rw [nodes, length_flatMap_eq_total]
  congr 1
  refine List.map_congr_left fun k _ => ?_
  simp [List.length_flatMap]

section nodes

variable {a : Nonterminal} {lefts rights : Nat → List ChomskyTree} {n i j k : Nat}

theorem mem_nodes (hl : ∀ m < n, Lists (lefts m) (t.trees g j m))
    (hr : ∀ m < n, Lists (rights m) (t.trees g k m)) {τ : ChomskyTree} :
    τ ∈ nodes a lefts rights n ↔ ∃ left right, τ = .node a left right ∧
      (∃ m, 0 < m ∧ left ∈ t.trees g j m) ∧ (∃ m, 0 < m ∧ right ∈ t.trees g k m) ∧
        left.size + right.size = n := by
  simp only [nodes, List.mem_flatMap, List.mem_range, List.mem_map]
  constructor
  · rintro ⟨m, hm, left, hleft, right, hright, rfl⟩
    have hleft := ((hl (m + 1) (by omega)).mem_iff left).1 hleft
    have hright := ((hr (n - (m + 1)) (by omega)).mem_iff right).1 hright
    have hsl : left.size = _ := hleft.2.2
    have hsr : right.size = _ := hright.2.2
    exact ⟨left, right, rfl, ⟨m + 1, by omega, hleft⟩, ⟨_, by omega, hright⟩, by omega⟩
  · rintro ⟨left, right, rfl, ⟨m, hm, hleft⟩, ⟨m', hm', hright⟩, hsize⟩
    have hsl : left.size = m := hleft.2.2
    have hsr : right.size = m' := hright.2.2
    obtain ⟨m, rfl⟩ : ∃ m₀, m = m₀ + 1 := ⟨m - 1, by omega⟩
    obtain rfl : m' = n - (m + 1) := by omega
    exact ⟨m, by omega, left, ((hl _ (by omega)).mem_iff left).2 hleft, right,
      ((hr _ (by omega)).mem_iff right).2 hright, rfl⟩

theorem nodup_nodes (hl : ∀ m < n, Lists (lefts m) (t.trees g j m))
    (hr : ∀ m < n, Lists (rights m) (t.trees g k m)) : (nodes a lefts rights n).Nodup := by
  refine List.nodup_flatMap.2 ⟨fun m hm => ?_, ?_⟩
  · have hm := List.mem_range.1 hm
    refine List.nodup_flatMap.2 ⟨fun left _ => ?_, ?_⟩
    · refine (hr (n - (m + 1)) (by omega)).nodup.map fun r r' h => ?_
      exact (ChomskyTree.node.inj h).2.2
    · refine (hl (m + 1) (by omega)).nodup.imp fun {l l'} hne => ?_
      rw [Function.onFun, List.disjoint_left]
      rintro τ hτ hτ'
      obtain ⟨r, -, rfl⟩ := List.mem_map.1 hτ
      obtain ⟨r', -, h⟩ := List.mem_map.1 hτ'
      exact hne (ChomskyTree.node.inj h).2.1.symm
  · -- nodes that split in different places have left trees of different sizes
    refine List.nodup_range.imp_of_mem fun {m m'} hm hm' hne => ?_
    have hm := List.mem_range.1 hm
    have hm' := List.mem_range.1 hm'
    rw [Function.onFun, List.disjoint_left]
    rintro τ hτ hτ'
    obtain ⟨l, hleft, h⟩ := List.mem_flatMap.1 hτ
    obtain ⟨r, -, rfl⟩ := List.mem_map.1 h
    obtain ⟨l', hleft', h⟩ := List.mem_flatMap.1 hτ'
    obtain ⟨r', -, h⟩ := List.mem_map.1 h
    obtain rfl := (ChomskyTree.node.inj h).2.1
    have hs := (((hl (m + 1) (by omega)).mem_iff _).1 hleft).2.2
    have hs' := (((hl (m' + 1) (by omega)).mem_iff _).1 hleft').2.2
    omega

end nodes

/-! ### Listing the trees -/

theorem Counts.entry_of_unknown (h : t.Counts g) {i n : Nat} (hi : t.numbering.size ≤ i)
    (hn : n ≤ t.maxLength) : t.entry i n = 0 := by
  have hrules := h.unknown i hi
  rcases Nat.lt_or_ge n 2 with h2 | h2
  · obtain rfl | rfl : n = 0 ∨ n = 1 := by omega
    · rw [h.entry_zero, hrules]
      rfl
    · rw [h.entry_one, hrules]
      rfl
  · rw [h.entry_eq i n h2 hn, pairSums, hrules]
    rfl

/-- An id is that of a nonterminal, or has no trees. -/
theorem id_cases (t : DerivationTable) (g : Grammar) (i : Nat) :
    (∃ a, t.numbering.id? a = some i) ∨ t.numbering.size ≤ i ∧ ∀ n, t.trees g i n = ∅ := by
  rcases Nat.lt_or_ge i t.numbering.size with hi | hi
  · exact .inl ⟨_, Numbering.id?_eq_some_iff.2 (List.getElem?_eq_getElem hi)⟩
  · refine .inr ⟨hi, fun n => Set.eq_empty_of_forall_notMem fun τ hτ => ?_⟩
    exact Nat.not_le.2 (Numbering.lt_size_of_id? hτ.2.1) hi

/-- The trees with several terminals are the nodes for the binary productions of the root. -/
theorem Counts.mem_trees_iff (h : t.Counts g) {a : Nonterminal} {i n : Nat}
    (hi : t.numbering.id? a = some i) (hn : 2 ≤ n) {τ : ChomskyTree} : τ ∈ t.trees g i n ↔
      ∃ bc ∈ (t.rulesOf i).pairs, ∃ left right, τ = .node a left right ∧
        (∃ m, 0 < m ∧ left ∈ t.trees g bc.1 m) ∧ (∃ m, 0 < m ∧ right ∈ t.trees g bc.2 m) ∧
          left.size + right.size = n := by
  rw [h.rules i a hi]
  constructor
  · rintro ⟨hτ, hroot, hsize⟩
    cases τ with
    | empty _ => exact absurd (show 0 = n from hsize) (by omega)
    | leaf _ _ => exact absurd (show 1 = n from hsize) (by omega)
    | node a' left right =>
      obtain rfl : a' = a := id?_inj hroot hi
      obtain ⟨hp, ⟨hl, hl0⟩, hr, hr0⟩ := hτ
      have hknows := h.numbering ▸ (knows_ofProductions g.start g.productions _ hp).2
      obtain ⟨j, hj⟩ := exists_id?_of_mem_names
        (hknows left.root (Production.mem_nonterminals.2 (by simp)))
      obtain ⟨k, hk⟩ := exists_id?_of_mem_names
        (hknows right.root (Production.mem_nonterminals.2 (by simp)))
      exact ⟨(j, k), mem_pairs_ofProductions.2 ⟨_, _, hp, hj, hk⟩, left, right, rfl,
        ⟨_, hl0, hl, hj, rfl⟩, ⟨_, hr0, hr, hk, rfl⟩, hsize⟩
  · rintro ⟨⟨j, k⟩, hbc, left, right, rfl, ⟨m, hm, hl, hj, hsl⟩, ⟨m', hm', hr, hk, hsr⟩, hsize⟩
    obtain ⟨b, c, hp, hb, hc⟩ := mem_pairs_ofProductions.1 hbc
    obtain rfl := id?_inj hj hb
    obtain rfl := id?_inj hk hc
    exact ⟨⟨hp, ⟨hl, by omega⟩, hr, by omega⟩, hi, hsize⟩

theorem Counts.nodup_pairs (h : t.Counts g) (i : Nat) : (t.rulesOf i).pairs.Nodup := by
  rcases t.id_cases g i with ⟨a, hi⟩ | ⟨hi, -⟩
  · rw [h.rules i a hi]
    exact nodup_pairs_ofProductions g.nodup
  · rw [h.unknown i hi]
    exact List.nodup_nil

theorem Counts.nodup_terminals (h : t.Counts g) (i : Nat) : (t.rulesOf i).terminals.Nodup := by
  rcases t.id_cases g i with ⟨a, hi⟩ | ⟨hi, -⟩
  · rw [h.rules i a hi]
    exact nodup_terminals_ofProductions g.nodup
  · rw [h.unknown i hi]
    exact List.nodup_nil

theorem Counts.lists_leaves (h : t.Counts g) {a : Nonterminal} {i : Nat}
    (hi : t.numbering.id? a = some i) :
    Lists ((t.rulesOf i).terminals.map (.leaf a)) (t.trees g i 1) := by
  refine ⟨(h.nodup_terminals i).map fun x y hxy => (ChomskyTree.leaf.inj hxy).2, fun τ => ?_⟩
  rw [h.rules i a hi]
  simp only [List.mem_map, mem_terminals_ofProductions]
  constructor
  · rintro ⟨x, hp, rfl⟩
    exact ⟨hp, hi, rfl⟩
  · rintro ⟨hτ, hroot, hsize⟩
    cases τ with
    | empty _ => cases hsize
    | leaf a' x =>
      obtain rfl : a' = a := id?_inj hroot hi
      exact ⟨x, hτ, rfl⟩
    | node _ left right =>
      obtain ⟨-, ⟨-, hl0⟩, -, hr0⟩ := hτ
      exact absurd (show left.size + right.size = 1 from hsize) (by omega)

theorem Counts.lists_empty (h : t.Counts g) {a : Nonterminal} {i : Nat}
    (hi : t.numbering.id? a = some i) :
    Lists (if (t.rulesOf i).hasEmpty then [.empty a] else []) (t.trees g i 0) := by
  refine ⟨by split <;> simp, fun τ => ?_⟩
  have hmem : τ ∈ t.trees g i 0 ↔ τ = .empty a ∧ ⟨a, []⟩ ∈ g.productions := by
    constructor
    · rintro ⟨hτ, hroot, hsize⟩
      cases τ with
      | empty a' =>
        obtain rfl : a' = a := id?_inj hroot hi
        exact ⟨rfl, hτ⟩
      | leaf _ _ => cases hsize
      | node _ left right =>
        obtain ⟨-, ⟨-, hl0⟩, -⟩ := hτ
        exact absurd (show left.size + right.size = 0 from hsize) (by omega)
    · rintro ⟨rfl, hp⟩
      exact ⟨hp, hi, rfl⟩
  rw [hmem, h.rules i a hi, ← hasEmpty_ofProductions (x := t.numbering)]
  split
  · next hempty => simp [hempty]
  · next hempty => simp [hempty]

/-- Where the shorter trees are listed, the nodes over them list the trees of the length `n`. -/
theorem Counts.lists_nodes (h : t.Counts g) {a : Nonterminal} {i n : Nat}
    (hi : t.numbering.id? a = some i) (hn : 2 ≤ n) {list : Nat → Nat → List ChomskyTree}
    (hlist : ∀ j, ∀ m < n, Lists (list j m) (t.trees g j m)) :
    Lists ((t.rulesOf i).pairs.flatMap fun bc => nodes a (list bc.1) (list bc.2) n)
      (t.trees g i n) := by
  refine ⟨List.nodup_flatMap.2 ⟨fun bc _ => nodup_nodes (hlist bc.1) (hlist bc.2), ?_⟩,
    fun τ => ?_⟩
  · -- nodes of different productions have trees of different ids
    refine (h.nodup_pairs i).imp fun {bc bc'} hne => ?_
    rw [Function.onFun, List.disjoint_left]
    intro τ hτ hτ'
    obtain ⟨l, r, rfl, ⟨_, _, hl⟩, ⟨_, _, hr⟩, -⟩ := (mem_nodes (hlist bc.1) (hlist bc.2)).1 hτ
    obtain ⟨l', r', heq, ⟨_, _, hl'⟩, ⟨_, _, hr'⟩, -⟩ :=
      (mem_nodes (hlist bc'.1) (hlist bc'.2)).1 hτ'
    obtain ⟨-, rfl, rfl⟩ := ChomskyTree.node.inj heq
    refine hne (Prod.ext ?_ ?_)
    · exact Option.some.inj (hl.2.1.symm.trans hl'.2.1)
    · exact Option.some.inj (hr.2.1.symm.trans hr'.2.1)
  · rw [h.mem_trees_iff hi hn, List.mem_flatMap]
    refine exists_congr fun bc => and_congr_right fun _ => ?_
    exact mem_nodes (hlist bc.1) (hlist bc.2)

theorem Counts.length_nodes (h : t.Counts g) (a : Nonterminal) {i n : Nat} (hn : 2 ≤ n)
    (hsize : n ≤ t.maxLength) {list : Nat → Nat → List ChomskyTree}
    (hlist : ∀ j, ∀ m < n, (list j m).length = t.entry j m) :
    ((t.rulesOf i).pairs.flatMap fun bc => nodes a (list bc.1) (list bc.2) n).length =
      t.entry i n := by
  rw [h.entry_eq i n hn hsize, length_flatMap_eq_total, pairSums]
  congr 1
  refine List.map_congr_left fun bc _ => ?_
  rw [DerivationTable.length_nodes, splitSum, splitCounts]
  congr 1
  refine List.map_congr_left fun k hk => ?_
  have hk := List.mem_range.1 hk
  rw [hlist _ _ (by omega), hlist _ _ (by omega), splitCount]

/-- **The trees of an id can be listed**, and their number is the entry of the table. -/
theorem Counts.exists_lists (h : t.Counts g) {n : Nat} (hn : n ≤ t.maxLength) :
    ∀ i, ∃ xs, Lists xs (t.trees g i n) ∧ xs.length = t.entry i n := by
  induction n using Nat.strongRecOn with
  | ind n ih =>
    intro i
    rcases t.id_cases g i with ⟨a, hi⟩ | ⟨hi, hnone⟩
    · obtain rfl | rfl | h2 : n = 0 ∨ n = 1 ∨ 2 ≤ n := by omega
      · refine ⟨_, h.lists_empty hi, ?_⟩
        rw [h.entry_zero]
        split <;> rfl
      · exact ⟨_, h.lists_leaves hi, by rw [List.length_map, h.entry_one]⟩
      · have hshort : ∀ j m, ∃ xs, m < n → Lists xs (t.trees g j m) ∧ xs.length = t.entry j m := by
          intro j m
          by_cases hm : m < n
          · obtain ⟨xs, hxs⟩ := ih m hm (by omega) j
            exact ⟨xs, fun _ => hxs⟩
          · exact ⟨[], fun h => absurd h hm⟩
        choose list hlist using hshort
        exact ⟨_, h.lists_nodes hi h2 fun j m hm => (hlist j m hm).1,
          h.length_nodes a h2 hn fun j m hm => (hlist j m hm).2⟩
    · rw [hnone, h.entry_of_unknown hi hn]
      exact ⟨[], ⟨List.nodup_nil, fun τ => by simp⟩, rfl⟩

theorem Counts.encard_trees (h : t.Counts g) {i n : Nat} (hn : n ≤ t.maxLength) :
    (t.trees g i n).encard = t.entry i n := by
  obtain ⟨xs, hxs, hlength⟩ := h.exists_lists hn i
  rw [hxs.encard, hlength]

theorem Counts.entry_pos_iff (h : t.Counts g) {i n : Nat} (hn : n ≤ t.maxLength) :
    0 < t.entry i n ↔ ∃ τ, τ ∈ t.trees g i n := by
  obtain ⟨xs, hxs, hlength⟩ := h.exists_lists hn i
  rw [← hlength, List.length_pos_iff_exists_mem]
  exact exists_congr hxs.mem_iff

/-! ### Answers -/

theorem ofGrammar?_eq_some_iff : ofGrammar? g = some t ↔ g.isChomsky = true ∧ ofGrammar g = t := by
  unfold ofGrammar?
  split
  · next hg => simp [hg]
  · next hg => simp [hg]

theorem Counts.id?_eq_none_iff (h : t.Counts g) {a : Nonterminal} :
    t.numbering.id? a = none ↔ a ∉ g.nonterminals := by
  rw [Numbering.id?_eq_none_iff, h.numbering, mem_names_ofProductions, Grammar.nonterminals,
    mem_sortedDistinct, List.mem_cons]

/-- Only the start symbol has an empty production. -/
theorem Counts.hasEmpty_iff (h : t.Counts g) (hg : g.isChomsky = true) {a : Nonterminal} {i : Nat}
    (hi : t.numbering.id? a = some i) : (t.rulesOf i).hasEmpty = true ↔
      a = g.start ∧ ⟨g.start, []⟩ ∈ g.productions := by
  rw [h.rules i a hi, hasEmpty_ofProductions]
  constructor
  · intro hp
    rcases Grammar.rhs_cases hg hp with ⟨-, ha⟩ | ⟨t, hr⟩ | ⟨b, c, hr⟩
    · obtain rfl : a = g.start := ha
      exact ⟨rfl, hp⟩
    · cases hr
    · cases hr
  · rintro ⟨rfl, hp⟩
    exact hp

theorem Counts.entry_zero_eq (h : t.Counts g) (hg : g.isChomsky = true) {a : Nonterminal} {i : Nat}
    (hi : t.numbering.id? a = some i) :
    t.entry i 0 = if a = g.start ∧ ⟨g.start, []⟩ ∈ g.productions then 1 else 0 := by
  rw [h.entry_zero]
  exact if_congr (h.hasEmpty_iff hg hi) rfl rfl

/-- A count that is answered is the entry of a table with the length asked for, or 0 for an unknown
nonterminal. -/
theorem Counts.of_count? (h : t.Counts g) {a : Nonterminal} {n k : Nat} {u : DerivationTable}
    (hu : t.count? a n = some (k, u)) : u.Counts g ∧ (a ∉ g.nonterminals ∧ k = 0 ∨
      ∃ i, t.numbering.id? a = some i ∧ u.numbering.id? a = some i ∧ t.extend? n = some u ∧
        n ≤ u.maxLength ∧ k = u.entry i n) := by
  unfold count? at hu
  split at hu
  · next hnone =>
    obtain ⟨rfl, rfl⟩ := Prod.mk.injEq .. ▸ Option.some.inj hu
    exact ⟨h, .inl ⟨h.id?_eq_none_iff.1 hnone, rfl⟩⟩
  · next i hi =>
    obtain ⟨v, hv, heq⟩ := Option.map_eq_some_iff.1 hu
    obtain ⟨rfl, rfl⟩ := Prod.mk.injEq .. ▸ heq
    obtain ⟨hc, hn⟩ := h.extend? hv
    exact ⟨hc, .inr ⟨i, hi, by rw [hc.numbering, ← h.numbering]; exact hi, hv, hn, rfl⟩⟩

theorem Counts.mem_nonterminals (h : t.Counts g) {a : Nonterminal} {i : Nat}
    (hi : t.numbering.id? a = some i) : a ∈ g.nonterminals := by
  by_contra ha
  rw [h.id?_eq_none_iff.2 ha] at hi
  cases hi

/-- A count is refused if it needs an extension for which there is no room. -/
theorem Counts.count?_eq_none_iff (h : t.Counts g) (hrows : t.Allocated) {a : Nonterminal}
    {n : Nat} : t.count? a n = none ↔ a ∈ g.nonterminals ∧ ¬t.Fits n := by
  unfold count?
  split
  · next hnone =>
    exact iff_of_false (Option.some_ne_none _) fun ha => h.id?_eq_none_iff.1 hnone ha.1
  · next i hi =>
    rw [Option.map_eq_none_iff, hrows.extend?_eq_none_iff, and_iff_right (h.mem_nonterminals hi)]

/-- A count that is answered is the number of trees. -/
theorem Counts.encard_of_count? (h : t.Counts g) {a : Nonterminal} {n k : Nat}
    {u : DerivationTable} (hu : t.count? a n = some (k, u)) : (g.trees a n).encard = k := by
  obtain ⟨hcu, ⟨ha, rfl⟩ | ⟨i, -, hi, -, hn, rfl⟩⟩ := h.of_count? hu
  · rw [Grammar.trees_eq_empty ha, Set.encard_empty, Nat.cast_zero]
  · rw [← trees_eq hi, hcu.encard_trees hn]

/-- **Counts are numbers of derivation trees**, whatever was asked before.  A count is refused only
where the rows would have to grow beyond the limit.  That depends on how they have grown before, but
calls with lengths up to half the limit are all answered. -/
theorem count?_eq_encard_trees {t₀ : DerivationTable} (h : ofGrammar? g = some t₀)
    (calls : List TableCall) :
    ((∀ call ∈ calls, 2 * call.length ≤ sequenceLimit) → ∃ t, t₀.runCalls calls = some t) ∧
      ∀ t, t₀.runCalls calls = some t → ∀ a n,
        (t.count? a n = none ↔ a ∈ g.nonterminals ∧ ¬t.Fits n) ∧
          (2 * n ≤ sequenceLimit → t.Fits n) ∧
          ∀ k u, t.count? a n = some (k, u) → (g.trees a n).encard = k ∧
            (n = 0 → k = if a = g.start ∧ ⟨g.start, []⟩ ∈ g.productions then 1 else 0) ∧
              (a ∉ g.nonterminals → k = 0) := by
  obtain ⟨hg, rfl⟩ := ofGrammar?_eq_some_iff.1 h
  have hrows₀ := allocated_ofGrammar g
  refine ⟨hrows₀.exists_runCalls, fun t ht a n => ?_⟩
  have hc := (counts_ofGrammar g).runCalls ht
  have hrows := hrows₀.runCalls ht
  refine ⟨hc.count?_eq_none_iff hrows, fits_of_two_mul_le hrows.capacity_le, fun k u hu => ?_⟩
  obtain ⟨hcu, ⟨ha, rfl⟩ | ⟨i, -, hi, -, hn, rfl⟩⟩ := hc.of_count? hu
  · refine ⟨?_, fun _ => ?_, fun _ => rfl⟩
    · rw [Grammar.trees_eq_empty ha, Set.encard_empty, Nat.cast_zero]
    · rw [if_neg]
      rintro ⟨rfl, -⟩
      exact ha (mem_sortedDistinct.2 (List.mem_cons_self ..))
  · refine ⟨?_, ?_, fun ha => ?_⟩
    · rw [← trees_eq hi, hcu.encard_trees hn]
    · rintro rfl
      exact hcu.entry_zero_eq hg hi
    · exact absurd (hcu.mem_nonterminals hi) ha

end DerivationTable

/-- The bracketings of a letter that repeats. -/
def Grammar.bracketings : Grammar where
  start := ⟨"S"⟩
  productions := [⟨⟨"S"⟩, [.nonterminal ⟨"S"⟩, .nonterminal ⟨"S"⟩]⟩, ⟨⟨"S"⟩, [.terminal ⟨"a"⟩]⟩]
  nodup := by decide
  defined := by decide

/-- A grammar with one word, which is one letter. -/
def Grammar.letter : Grammar where
  start := ⟨"S"⟩
  productions := [⟨⟨"S"⟩, [.terminal ⟨"a"⟩]⟩]
  nodup := by decide
  defined := by decide

namespace DerivationTable

/-- Four letters have five bracketings, after two calls that extend the table. -/
theorem count?_eq_encard_trees_bracketings :
    ofGrammar? Grammar.bracketings = some (ofGrammar Grammar.bracketings) ∧
      (Grammar.bracketings.trees ⟨"S"⟩ 4).encard = 5 := by
  refine ⟨rfl, ?_⟩
  obtain ⟨-, h⟩ := count?_eq_encard_trees (g := Grammar.bracketings) rfl
    [.extend 3, .count ⟨"S"⟩ 5]
  obtain ⟨-, -, h⟩ := h (((ofGrammar Grammar.bracketings).extend 3).extend 5) rfl ⟨"S"⟩ 4
  have hcount : ((((ofGrammar Grammar.bracketings).extend 3).extend 5).count? ⟨"S"⟩ 4).map
      Prod.fst = some 5 := by decide +kernel
  obtain ⟨⟨k, u⟩, hu, rfl⟩ := Option.map_eq_some_iff.1 hcount
  exact (h _ u hu).1

/-- A length that is a machine word, but that there is no room for, is refused, although there is no
tree of this length. -/
theorem count?_eq_none_letter : 2 ^ 60 < 2 ^ 64 - 1 ∧
    ofGrammar? Grammar.letter = some (ofGrammar Grammar.letter) ∧
      (ofGrammar Grammar.letter).count? ⟨"S"⟩ (2 ^ 60) = none :=
  ⟨by decide, rfl, by decide +kernel⟩

end DerivationTable

end GrammarSampler
