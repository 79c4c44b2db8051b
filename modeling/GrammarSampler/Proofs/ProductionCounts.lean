import GrammarSampler.Proofs.SessionIndependence

/-!
# Counts of productions add up

A table has the trees of a nonterminal in its rows; the trees that begin with a production are
counted by a query of its own, with its own tests.  The two agree: the count of a binary production
is the sum over its splits (`Counts.productionCount_eq_sum`), and the counts of the productions of a
nonterminal add up to its own (`Counts.sum_productionCount`), as each of the three forms of a
production has its part in the entry of a row.

The counts are those of a table that goes far enough (`nonterminalCount`, `productionCount`).  They
do not depend on how far the table was extended before, so that queries may be made in any order: if
one is answered, the answer is this count (`Counts.answers`).  `AddUp` says how the counts hang
together.
-/

namespace GrammarSampler

/-! ### Sums of lists -/

theorem total_eq_sum (ns : List Nat) : total ns = ns.sum := by
  induction ns with
  | nil => rfl
  | cons n ns ih => rw [total, ih, List.sum_cons]

theorem sum_map_getD {α β : Type} (f : α → Option β) (v : β → Nat) (xs : List α) :
    (xs.map fun x => ((f x).map v).getD 0).sum = ((xs.filterMap f).map v).sum := by
  induction xs with
  | nil => rfl
  | cons x xs ih => cases hx : f x <;> simp [hx, ih]

theorem sum_map_ite {α : Type} (q : α → Bool) (xs : List α) :
    (xs.map fun x => if q x then 1 else 0).sum = xs.countP q := by
  induction xs with
  | nil => rfl
  | cons x xs ih => cases hx : q x <;> simp [hx, ih, Nat.add_comm]

/-- A nonterminal has at most one empty production. -/
theorem sum_isEmpty {x : Numbering} {ps : List Production} {a : Nonterminal} (h : ps.Nodup) :
    ((ps.filter fun p => p.lhs = a).map fun p => if p.isEmpty then 1 else 0).sum =
      if (RuleSet.ofProductions x ps a).hasEmpty then 1 else 0 := by
  calc _ = (ps.filter fun p => p.lhs = a).countP Production.isEmpty := sum_map_ite _ _
    _ = ps.count ⟨a, []⟩ := by
      rw [List.countP_filter, List.count]
      refine List.countP_congr fun p _ => ?_
      cases p
      simp [Production.isEmpty, and_comm]
    _ = _ := by
      rw [h.count]
      exact if_congr hasEmpty_ofProductions.symm rfl rfl

namespace DerivationTable

variable {g : Grammar} {t u : DerivationTable} {a b c : Nonterminal} {i j k n : Nat}

/-! ### Productions by their forms -/

/-- What is no production of the grammar has no trees. -/
theorem Counts.countProduction?_of_not_mem (h : t.Counts g) {p : Production}
    (hp : p ∉ g.productions) : t.countProduction? p n = some (0, t) := by
  obtain ⟨a, r⟩ := p
  unfold countProduction?
  split
  · rfl
  · next i hi =>
    rw [h.rules i a hi]
    split
    · next x hx =>
      obtain rfl : r = [.terminal x] := Production.terminal?_eq_some.1 hx
      have hx : x ∉ (RuleSet.ofProductions t.numbering g.productions a).terminals :=
        fun hmem => hp (mem_terminals_ofProductions.1 hmem)
      simp [hx]
    · split
      · rfl
      · next bc hbc =>
        obtain ⟨b, c, hr, hb, hc⟩ := pair?_eq_some.1 hbc
        obtain rfl : r = _ := hr
        have hnone : bc ∉ (t.rulesOf i).pairs := by
          rw [h.rules i a hi]
          intro hmem
          obtain ⟨b', c', hp', hb', hc'⟩ := mem_pairs_ofProductions.1 hmem
          obtain rfl := id?_inj hb hb'
          obtain rfl := id?_inj hc hc'
          exact hp hp'
        rw [countPair?, if_pos (.inr hnone)]
    · rw [if_neg]
      rintro ⟨hr, -, hempty⟩
      obtain rfl : r = [] := List.isEmpty_iff.1 hr
      exact hp (hasEmpty_ofProductions.1 hempty)

theorem Counts.countProduction?_empty (h : t.Counts g) (hi : t.numbering.id? a = some i)
    (hp : ⟨a, []⟩ ∈ g.productions) :
    t.countProduction? ⟨a, []⟩ n = some (if n = 0 then 1 else 0, t) := by
  have hempty := hasEmpty_ofProductions (x := t.numbering).2 hp
  rw [← h.rules i a hi] at hempty
  simp [countProduction?, hi, Production.terminal?, Production.binary?, Production.isEmpty, hempty]

theorem Counts.countProduction?_terminal (h : t.Counts g) {x : Terminal}
    (hi : t.numbering.id? a = some i) (hp : ⟨a, [.terminal x]⟩ ∈ g.productions) :
    t.countProduction? ⟨a, [.terminal x]⟩ n = some (if n = 1 then 1 else 0, t) := by
  have hx := mem_terminals_ofProductions (x := t.numbering).2 hp
  rw [← h.rules i a hi] at hx
  simp [countProduction?, hi, Production.terminal?, hx]

theorem Counts.countProduction?_binary (h : t.Counts g) (hi : t.numbering.id? a = some i)
    (hj : t.numbering.id? b = some j) (hk : t.numbering.id? c = some k)
    (hp : ⟨a, [.nonterminal b, .nonterminal c]⟩ ∈ g.productions) :
    t.countProduction? ⟨a, [.nonterminal b, .nonterminal c]⟩ n =
      if n < 2 then some (0, t) else (t.extend? n).map fun u => (u.splitSum j k n, u) := by
  have hpair := mem_pairs_ofProductions (x := t.numbering).2 ⟨b, c, hp, hj, hk⟩
  rw [← h.rules i a hi] at hpair
  simp [countProduction?, hi, Production.terminal?, Production.binary?, Production.pair?, hj, hk,
    countPair?, hpair]

theorem Counts.exists_ids (h : t.Counts g) {p : Production} (hp : p ∈ g.productions) :
    (∃ i, t.numbering.id? p.lhs = some i) ∧
      ∀ b, .nonterminal b ∈ p.rhs → ∃ j, t.numbering.id? b = some j := by
  obtain ⟨hlhs, hrhs⟩ := h.numbering ▸ knows_ofProductions g.start g.productions p hp
  exact ⟨exists_id?_of_mem_names hlhs, fun b hb =>
    exists_id?_of_mem_names (hrhs b (Production.mem_nonterminals.2 hb))⟩

/-- A production is refused if its count needs an extension for which there is no room. -/
theorem Counts.countProduction?_eq_none_iff (h : t.Counts g) (hrows : t.Allocated)
    (hg : g.isChomsky = true) {p : Production} : t.countProduction? p n = none ↔
      p ∈ g.productions ∧ p.binary?.isSome = true ∧ ¬t.Fits n := by
  by_cases hp : p ∈ g.productions
  · obtain ⟨⟨i, hi⟩, hids⟩ := h.exists_ids hp
    have hshape := Grammar.rhs_cases hg hp
    obtain ⟨a, r⟩ := p
    rcases hshape with ⟨hr, -⟩ | ⟨x, hr⟩ | ⟨b, c, hr⟩ <;> obtain rfl : r = _ := hr
    · rw [h.countProduction?_empty hi hp]
      simp [Production.binary?]
    · rw [h.countProduction?_terminal hi hp]
      simp [Production.binary?]
    · obtain ⟨j, hj⟩ := hids b (by simp)
      obtain ⟨k, hk⟩ := hids c (by simp)
      rw [h.countProduction?_binary hi hj hk hp]
      split
      · next h2 =>
        have hfits : t.Fits n := hrows.fits_of_le (Nat.le_trans (Nat.le_of_lt_succ h2) h.one_le)
        simp [hfits]
      · simp [Production.binary?, hp, hrows.extend?_eq_none_iff]
  · rw [h.countProduction?_of_not_mem hp]
    simp [hp]

/-! ### Counts do not depend on the table -/

/-- A production is counted as it is, or by the splits of its length in an extended table. -/
theorem Counts.countProduction?_cases (h : t.Counts g) (hg : g.isChomsky = true) (p : Production)
    (n : Nat) : (∃ m, ∀ u, Counts g u → u.countProduction? p n = some (m, u)) ∨
      ∃ j k, ∀ u, Counts g u →
        u.countProduction? p n = (u.extend? n).map fun v => (v.splitSum j k n, v) := by
  by_cases hp : p ∈ g.productions
  · obtain ⟨⟨i, hi⟩, hids⟩ := h.exists_ids hp
    have hshape := Grammar.rhs_cases hg hp
    obtain ⟨a, r⟩ := p
    rcases hshape with ⟨hr, -⟩ | ⟨x, hr⟩ | ⟨b, c, hr⟩ <;> obtain rfl : r = _ := hr
    · refine .inl ⟨if n = 0 then 1 else 0, fun u hu => ?_⟩
      rw [← h.numbering_eq hu] at hi
      exact hu.countProduction?_empty hi hp
    · refine .inl ⟨if n = 1 then 1 else 0, fun u hu => ?_⟩
      rw [← h.numbering_eq hu] at hi
      exact hu.countProduction?_terminal hi hp
    · obtain ⟨j, hj⟩ := hids b (by simp)
      obtain ⟨k, hk⟩ := hids c (by simp)
      by_cases h2 : n < 2
      · refine .inl ⟨0, fun u hu => ?_⟩
        rw [← h.numbering_eq hu] at hi hj hk
        rw [hu.countProduction?_binary hi hj hk hp, if_pos h2]
      · refine .inr ⟨j, k, fun u hu => ?_⟩
        rw [← h.numbering_eq hu] at hi hj hk
        rw [hu.countProduction?_binary hi hj hk hp, if_neg h2]
  · exact .inl ⟨0, fun u hu => hu.countProduction?_of_not_mem hp⟩

/-- **Two answers** for a nonterminal are the same count. -/
theorem Counts.eq_of_count? (ht : t.Counts g) (hu : u.Counts g) {m m' : Nat}
    {t' u' : DerivationTable} (hm : t.count? a n = some (m, t'))
    (hm' : u.count? a n = some (m', u')) : m = m' := by
  have hcard := ht.encard_of_count? hm
  rw [hu.encard_of_count? hm'] at hcard
  exact_mod_cast hcard.symm

/-- **Two answers** for a production are the same count. -/
theorem Counts.eq_of_countProduction? (ht : t.Counts g) (hg : g.isChomsky = true) (hu : u.Counts g)
    {p : Production} {m m' : Nat} {t' u' : DerivationTable}
    (hm : t.countProduction? p n = some (m, t')) (hm' : u.countProduction? p n = some (m', u')) :
    m = m' := by
  rcases ht.countProduction?_cases hg p n with ⟨k, heq⟩ | ⟨j, k, heq⟩ <;>
    rw [heq t ht] at hm <;> rw [heq u hu] at hm'
  · cases hm
    cases hm'
    rfl
  · obtain ⟨t₁, ht₁, hm⟩ := Option.map_eq_some_iff.1 hm
    obtain ⟨u₁, hu₁, hm'⟩ := Option.map_eq_some_iff.1 hm'
    cases hm
    cases hm'
    have hagree := ht.agree_extend? hu ht₁ hu₁
    exact (splitSum_congr (fun i k hk => hagree.entry i k (Nat.le_of_lt hk)) j k).symm

theorem extend?_of_le (hn : n ≤ t.maxLength) : t.extend? n = some t := by
  rw [extend?, if_pos (.inl hn), extend, if_pos hn]

/-- A table that goes as far as is asked answers. -/
theorem exists_count?_of_le (a : Nonterminal) (hn : n ≤ t.maxLength) :
    ∃ m, t.count? a n = some (m, t) := by
  rw [count?]
  split
  · exact ⟨_, rfl⟩
  · rw [extend?_of_le hn]
    exact ⟨_, rfl⟩

theorem Counts.exists_countProduction?_of_le (h : t.Counts g) (hg : g.isChomsky = true)
    (p : Production) (hn : n ≤ t.maxLength) : ∃ m, t.countProduction? p n = some (m, t) := by
  rcases h.countProduction?_cases hg p n with ⟨m, heq⟩ | ⟨j, k, heq⟩
  · exact ⟨m, heq t h⟩
  · rw [heq t h, extend?_of_le hn]
    exact ⟨_, rfl⟩

/-- The number of trees of `a` with `n` terminals, as the table answers it that goes so far. -/
def nonterminalCount (t : DerivationTable) (a : Nonterminal) (n : Nat) : Nat :=
  (((t.extend n).count? a n).map Prod.fst).getD 0

/-- The number of trees that begin with `p` and have `n` terminals, as the table answers it that
goes so far. -/
def productionCount (t : DerivationTable) (p : Production) (n : Nat) : Nat :=
  (((t.extend n).countProduction? p n).map Prod.fst).getD 0

/-- Whatever is answered by a table of the grammar is this count. -/
theorem Counts.nonterminalCount_eq_of_count? (ht : t.Counts g) (hu : u.Counts g) {m : Nat}
    {u' : DerivationTable} (hm : u.count? a n = some (m, u')) : t.nonterminalCount a n = m := by
  obtain ⟨hc, hmax⟩ := ht.extend n
  obtain ⟨m', hm'⟩ := exists_count?_of_le (t := t.extend n) (n := n) a (by omega)
  rw [nonterminalCount, hm']
  exact hc.eq_of_count? hu hm' hm

theorem Counts.productionCount_eq_of_countProduction? (ht : t.Counts g) (hg : g.isChomsky = true)
    (hu : u.Counts g) {p : Production} {m : Nat} {u' : DerivationTable}
    (hm : u.countProduction? p n = some (m, u')) : t.productionCount p n = m := by
  obtain ⟨hc, hmax⟩ := ht.extend n
  obtain ⟨m', hm'⟩ := hc.exists_countProduction?_of_le (n := n) hg p (by omega)
  rw [productionCount, hm']
  exact hc.eq_of_countProduction? hg hu hm' hm

/-- This count is the number of trees. -/
theorem Counts.encard_eq_nonterminalCount (h : t.Counts g) (a : Nonterminal) (n : Nat) :
    (g.trees a n).encard = t.nonterminalCount a n := by
  obtain ⟨hc, hmax⟩ := h.extend n
  obtain ⟨m, hm⟩ := exists_count?_of_le (t := t.extend n) (n := n) a (by omega)
  rw [h.nonterminalCount_eq_of_count? hc hm, hc.encard_of_count? hm]

/-- **The counts** are the same for all tables of the grammar. -/
theorem Counts.nonterminalCount_eq (ht : t.Counts g) (hu : u.Counts g) :
    u.nonterminalCount = t.nonterminalCount := by
  funext a n
  obtain ⟨hc, hmax⟩ := hu.extend n
  obtain ⟨m, hm⟩ := exists_count?_of_le (t := u.extend n) (n := n) a (by omega)
  rw [hu.nonterminalCount_eq_of_count? hc hm, ht.nonterminalCount_eq_of_count? hc hm]

theorem Counts.productionCount_eq (ht : t.Counts g) (hg : g.isChomsky = true) (hu : u.Counts g) :
    u.productionCount = t.productionCount := by
  funext p n
  obtain ⟨hc, hmax⟩ := hu.extend n
  obtain ⟨m, hm⟩ := hc.exists_countProduction?_of_le (n := n) hg p (by omega)
  rw [hu.productionCount_eq_of_countProduction? hg hc hm,
    ht.productionCount_eq_of_countProduction? hg hc hm]

/-! ### The sum over the splits -/

theorem extend_of_le (hn : n ≤ t.maxLength) : t.extend n = t := if_pos hn

theorem nonterminalCount_of_le (hi : t.numbering.id? a = some i) (hn : n ≤ t.maxLength) :
    t.nonterminalCount a n = t.entry i n := by
  rw [nonterminalCount, extend_of_le hn, count?, hi]
  simp [extend?_of_le hn]

theorem splitSum_of_lt_two (t : DerivationTable) (j k : Nat) (hn : n < 2) :
    t.splitSum j k n = 0 := by
  have hnone : n - 1 = 0 := by omega
  rw [splitSum, splitCounts, hnone]
  rfl

theorem splitSum_eq_sum (hj : t.numbering.id? b = some j) (hk : t.numbering.id? c = some k)
    (hn : n ≤ t.maxLength) : t.splitSum j k n =
      ∑ m ∈ Finset.Ico 1 n, t.nonterminalCount b m * t.nonterminalCount c (n - m) := by
  have hrange : t.splitSum j k n = ∑ m ∈ Finset.range (n - 1), t.splitCount j k n (m + 1) :=
    total_eq_sum _
  rw [hrange, Finset.sum_Ico_eq_sum_range]
  refine Finset.sum_congr rfl fun m hm => ?_
  have hm := Finset.mem_range.1 hm
  rw [nonterminalCount_of_le hj (by omega), nonterminalCount_of_le hk (by omega), splitCount,
    Nat.add_comm 1 m]

theorem Counts.productionCount_binary (h : t.Counts g) (hi : t.numbering.id? a = some i)
    (hj : t.numbering.id? b = some j) (hk : t.numbering.id? c = some k)
    (hp : ⟨a, [.nonterminal b, .nonterminal c]⟩ ∈ g.productions) (hn : n ≤ t.maxLength) :
    t.productionCount ⟨a, [.nonterminal b, .nonterminal c]⟩ n = t.splitSum j k n := by
  rw [productionCount, extend_of_le hn, h.countProduction?_binary hi hj hk hp, extend?_of_le hn]
  split
  · next h2 =>
    rw [t.splitSum_of_lt_two j k h2]
    rfl
  · rfl

/-- The same counts are those of a table that goes as far as is asked. -/
theorem Counts.exists_longer (h : t.Counts g) (hg : g.isChomsky = true) (n : Nat) :
    ∃ u, Counts g u ∧ n ≤ u.maxLength ∧ u.nonterminalCount = t.nonterminalCount ∧
      u.productionCount = t.productionCount := by
  obtain ⟨hc, hmax⟩ := h.extend n
  exact ⟨t.extend n, hc, by omega, h.nonterminalCount_eq hc, h.productionCount_eq hg hc⟩

/-- **The count of a binary production** is the sum over its splits. -/
theorem Counts.productionCount_eq_sum (h : t.Counts g) (hg : g.isChomsky = true)
    (hp : ⟨a, [.nonterminal b, .nonterminal c]⟩ ∈ g.productions) (n : Nat) :
    t.productionCount ⟨a, [.nonterminal b, .nonterminal c]⟩ n =
      ∑ m ∈ Finset.Ico 1 n, t.nonterminalCount b m * t.nonterminalCount c (n - m) := by
  obtain ⟨u, hu, hle, hcount, hproduction⟩ := h.exists_longer hg n
  obtain ⟨⟨i, hi⟩, hids⟩ := hu.exists_ids hp
  obtain ⟨j, hj⟩ := hids b (by simp)
  obtain ⟨k, hk⟩ := hids c (by simp)
  rw [← hcount, ← hproduction, hu.productionCount_binary hi hj hk hp hle, splitSum_eq_sum hj hk hle]

/-! ### The sum over the productions of a nonterminal -/

/-- Each form of a production has trees of its own lengths. -/
theorem Counts.productionCount_cases (h : t.Counts g) (hg : g.isChomsky = true) {p : Production}
    (hp : p ∈ g.productions) (hn : n ≤ t.maxLength) :
    (n = 0 → t.productionCount p n = if p.isEmpty then 1 else 0) ∧
      (n = 1 → t.productionCount p n = (p.terminal?.map fun _ => 1).getD 0) ∧
        (2 ≤ n → t.productionCount p n =
          ((p.pair? t.numbering).map fun bc => t.splitSum bc.1 bc.2 n).getD 0) := by
  obtain ⟨⟨i, hi⟩, hids⟩ := h.exists_ids hp
  have hshape := Grammar.rhs_cases hg hp
  obtain ⟨a, r⟩ := p
  rcases hshape with ⟨hr, -⟩ | ⟨x, hr⟩ | ⟨b, c, hr⟩ <;> obtain rfl : r = _ := hr
  · rw [productionCount, extend_of_le hn, h.countProduction?_empty hi hp]
    simp [Production.isEmpty, Production.terminal?, Production.pair?, Production.binary?]
    omega
  · rw [productionCount, extend_of_le hn, h.countProduction?_terminal hi hp]
    simp [Production.isEmpty, Production.terminal?, Production.pair?, Production.binary?]
    omega
  · obtain ⟨j, hj⟩ := hids b (by simp)
    obtain ⟨k, hk⟩ := hids c (by simp)
    have hpair : Production.pair? t.numbering ⟨a, _⟩ = some (j, k) :=
      pair?_eq_some.2 ⟨b, c, rfl, hj, hk⟩
    have hcount := h.productionCount_binary hi hj hk hp hn
    refine ⟨fun h0 => ?_, fun h1 => ?_, fun _ => ?_⟩
    · exact hcount.trans (t.splitSum_of_lt_two j k (by omega))
    · exact hcount.trans (t.splitSum_of_lt_two j k (by omega))
    · rw [hcount, hpair, Option.map_some, Option.getD_some]

/-- The entry of a row is the sum over the productions that have trees of its length. -/
theorem Counts.sum_productionCount_of_le (h : t.Counts g) (hg : g.isChomsky = true)
    (hi : t.numbering.id? a = some i) (hn : n ≤ t.maxLength) :
    ((g.productions.filter fun p => p.lhs = a).map fun p => t.productionCount p n).sum =
      t.entry i n := by
  have heach : ∀ p ∈ g.productions.filter fun p => p.lhs = a, _ := fun p hp =>
    h.productionCount_cases hg (List.mem_filter.1 hp).1 hn
  obtain rfl | rfl | h2 : n = 0 ∨ n = 1 ∨ 2 ≤ n := by omega
  · rw [List.map_congr_left fun p hp => (heach p hp).1 rfl, h.entry_zero, h.rules i a hi]
    exact sum_isEmpty g.nodup
  · rw [List.map_congr_left fun p hp => (heach p hp).2.1 rfl, h.entry_one, h.rules i a hi,
      sum_map_getD]
    simp [RuleSet.ofProductions]
  · rw [List.map_congr_left fun p hp => (heach p hp).2.2 h2, h.entry_eq i n h2 hn, pairSums,
      h.rules i a hi, sum_map_getD, total_eq_sum]
    rfl

/-- **The counts of the productions** of a nonterminal add up to its own. -/
theorem Counts.sum_productionCount (h : t.Counts g) (hg : g.isChomsky = true) (a : Nonterminal)
    (n : Nat) :
    ((g.productions.filter fun p => p.lhs = a).map fun p => t.productionCount p n).sum =
      t.nonterminalCount a n := by
  obtain ⟨u, hu, hle, hcount, hproduction⟩ := h.exists_longer hg n
  rw [← hcount, ← hproduction]
  cases hi : u.numbering.id? a with
  | none =>
    have hnone : (g.productions.filter fun p => p.lhs = a) = [] := by
      refine List.filter_eq_nil_iff.2 fun p hp hlhs => ?_
      obtain ⟨⟨i, hsome⟩, -⟩ := hu.exists_ids hp
      rw [of_decide_eq_true hlhs, hi] at hsome
      cases hsome
    rw [hnone, nonterminalCount, extend_of_le hle, count?, hi]
    rfl
  | some i => rw [hu.sum_productionCount_of_le hg hi hle, nonterminalCount_of_le hi hle]

/-! ### Answers -/

/-- The table answers the given counts of nonterminals and of productions, and refuses those that
need an extension for which there is no room. -/
structure Answers (g : Grammar) (count : Nonterminal → Nat → Nat)
    (countProduction : Production → Nat → Nat) (t : DerivationTable) : Prop where
  nonterminal (a : Nonterminal) (n : Nat) : (t.count? a n).map Prod.fst =
    if a ∈ g.nonterminals ∧ ¬t.Fits n then none else some (count a n)
  production (p : Production) (n : Nat) : (t.countProduction? p n).map Prod.fst =
    if p ∈ g.productions ∧ p.binary?.isSome ∧ ¬t.Fits n then none
    else some (countProduction p n)

/-- An answer is known by when there is one and what it is. -/
theorem map_fst_eq_ite {β : Type} {o : Option (Nat × β)} {P : Prop} [Decidable P] {m : Nat}
    (hnone : o = none ↔ P) (hsome : ∀ {k u}, o = some (k, u) → m = k) :
    o.map Prod.fst = if P then none else some m := by
  split
  · next hP =>
    rw [hnone.2 hP]
    rfl
  · next hP =>
    obtain ⟨⟨k, u⟩, hk⟩ := Option.ne_none_iff_exists'.1 (mt hnone.1 hP)
    rw [hk, hsome hk]
    rfl

theorem Counts.answers (h : t.Counts g) (hg : g.isChomsky = true) (hu : u.Counts g)
    (hrows : u.Allocated) : Answers g t.nonterminalCount t.productionCount u where
  nonterminal _ _ := map_fst_eq_ite (hu.count?_eq_none_iff hrows) fun hm =>
    h.nonterminalCount_eq_of_count? hu hm
  production _ _ := map_fst_eq_ite (hu.countProduction?_eq_none_iff hrows hg) fun hm =>
    h.productionCount_eq_of_countProduction? hg hu hm

/-- How the counts of nonterminals and of productions hang together. -/
structure AddUp (g : Grammar) (count : Nonterminal → Nat → Nat)
    (countProduction : Production → Nat → Nat) : Prop where
  /-- What is no production of the grammar has no trees. -/
  none (p : Production) (n : Nat) : p ∉ g.productions → countProduction p n = 0
  /-- An empty production has one tree, which is empty. -/
  empty (a : Nonterminal) (n : Nat) : ⟨a, []⟩ ∈ g.productions →
    countProduction ⟨a, []⟩ n = if n = 0 then 1 else 0
  /-- A production of a terminal has one tree, which is a leaf. -/
  terminal (a : Nonterminal) (x : Terminal) (n : Nat) : ⟨a, [.terminal x]⟩ ∈ g.productions →
    countProduction ⟨a, [.terminal x]⟩ n = if n = 1 then 1 else 0
  /-- The trees of a binary production are those of all splits. -/
  binary (a b c : Nonterminal) (n : Nat) : ⟨a, [.nonterminal b, .nonterminal c]⟩ ∈ g.productions →
    countProduction ⟨a, [.nonterminal b, .nonterminal c]⟩ n =
      ∑ k ∈ Finset.Ico 1 n, count b k * count c (n - k)
  /-- The trees of a nonterminal are those of its productions. -/
  sum (a : Nonterminal) (n : Nat) :
    ((g.productions.filter fun p => p.lhs = a).map fun p => countProduction p n).sum = count a n

theorem Counts.addUp (h : t.Counts g) (hg : g.isChomsky = true) :
    AddUp g t.nonterminalCount t.productionCount where
  none p n hp := h.productionCount_eq_of_countProduction? hg h (h.countProduction?_of_not_mem hp)
  empty a n hp := by
    obtain ⟨⟨i, hi⟩, -⟩ := h.exists_ids hp
    exact h.productionCount_eq_of_countProduction? hg h (h.countProduction?_empty hi hp)
  terminal a x n hp := by
    obtain ⟨⟨i, hi⟩, -⟩ := h.exists_ids hp
    exact h.productionCount_eq_of_countProduction? hg h (h.countProduction?_terminal hi hp)
  binary a b c n hp := h.productionCount_eq_sum hg hp n
  sum := h.sum_productionCount hg

/-- **Counts of productions agree with counts of nonterminals.**  There are counts that add up, and
every table that calls leave answers them, whatever calls these were.  A query is refused only where
the rows would have to grow beyond the limit, and never for lengths up to half of it. -/
theorem sum_countProduction?_eq_count? {t₀ : DerivationTable} (h : ofGrammar? g = some t₀) :
    ∃ (count : Nonterminal → Nat → Nat) (countProduction : Production → Nat → Nat),
      (∀ calls t, t₀.runCalls calls = some t → Answers g count countProduction t ∧
        ∀ n, 2 * n ≤ sequenceLimit → t.Fits n) ∧
        AddUp g count countProduction := by
  obtain ⟨hg, rfl⟩ := ofGrammar?_eq_some_iff.1 h
  have hc := counts_ofGrammar g
  refine ⟨(ofGrammar g).nonterminalCount, (ofGrammar g).productionCount, fun calls t ht => ?_,
    hc.addUp hg⟩
  have hrows : t.Allocated := (allocated_ofGrammar g).runCalls ht
  exact ⟨hc.answers hg (hc.runCalls ht) hrows, fun n => fits_of_two_mul_le hrows.capacity_le⟩

/-- Four letters have five bracketings, all of which begin with the binary production.  The count is
the same before and after an extension. -/
theorem sum_countProduction?_eq_count?_bracketings :
    ofGrammar? Grammar.bracketings = some (ofGrammar Grammar.bracketings) ∧
      ∃ t count countProduction,
        (ofGrammar Grammar.bracketings).runCalls [.countProduction
          ⟨⟨"S"⟩, [.nonterminal ⟨"S"⟩, .nonterminal ⟨"S"⟩]⟩ 3, .extend 6] = some t ∧
        Answers Grammar.bracketings count countProduction (ofGrammar Grammar.bracketings) ∧
        Answers Grammar.bracketings count countProduction t ∧
        count ⟨"S"⟩ 4 = 5 ∧
        countProduction ⟨⟨"S"⟩, [.nonterminal ⟨"S"⟩, .nonterminal ⟨"S"⟩]⟩ 4 =
          ∑ k ∈ Finset.Ico 1 4, count ⟨"S"⟩ k * count ⟨"S"⟩ (4 - k) := by
  obtain ⟨count, countProduction, hanswers, hadd⟩ :=
    sum_countProduction?_eq_count? (g := Grammar.bracketings) rfl
  obtain ⟨hfirst, hroom⟩ := hanswers [] _ rfl
  have hcount := hfirst.nonterminal ⟨"S"⟩ 4
  have hfive : ((ofGrammar Grammar.bracketings).count? ⟨"S"⟩ 4).map Prod.fst = some 5 := by
    decide +kernel
  rw [hfive, if_neg fun hlong => hlong.2 (hroom 4 (by decide))] at hcount
  have hrun : (ofGrammar Grammar.bracketings).runCalls [.countProduction
    ⟨⟨"S"⟩, [.nonterminal ⟨"S"⟩, .nonterminal ⟨"S"⟩]⟩ 3, .extend 6] = some _ := rfl
  exact ⟨rfl, _, count, countProduction, hrun, hfirst, (hanswers _ _ hrun).1,
    (Option.some.inj hcount).symm, hadd.binary _ _ _ 4 (by decide)⟩

/-- For a length that there is no room for, a production may be counted where its nonterminal is
not: its count needs no extension. -/
theorem count?_ne_sum_letter : 2 ^ 60 < 2 ^ 64 - 1 ∧
    ofGrammar? Grammar.letter = some (ofGrammar Grammar.letter) ∧
      Grammar.letter.productions = [⟨⟨"S"⟩, [.terminal ⟨"a"⟩]⟩] ∧
      ((ofGrammar Grammar.letter).countProduction? ⟨⟨"S"⟩, [.terminal ⟨"a"⟩]⟩ (2 ^ 60)).map
        Prod.fst = some 0 ∧
      (ofGrammar Grammar.letter).count? ⟨"S"⟩ (2 ^ 60) = none :=
  ⟨by decide, rfl, rfl, by decide +kernel, by decide +kernel⟩

end DerivationTable

end GrammarSampler
