import GrammarSampler.Proofs.Derivations
import GrammarSampler.Proofs.Worklists

/-!
# What the closure of a property holds

Started from the nonterminals with a right-hand side that needs no other nonterminal, the closure
holds the nonterminals that derive some word (`has_closure_iff`), which is the empty one where
terminals lack the property.  So `nullableSet` and `productiveSet` are exact.  Together with what
the worklist keeps this is `closure_leastFixpoint`.
-/

namespace GrammarSampler

variable {x : Numbering} {ps : List Production} {rule : TerminalRule}

/-! ### Numberings of productions -/

/-- All nonterminals of the productions have ids. -/
def Numbering.Knows (x : Numbering) (ps : List Production) : Prop :=
  ∀ p ∈ ps, p.lhs ∈ x.names ∧ ∀ a ∈ p.nonterminals, a ∈ x.names

theorem mem_names_ofProductions {start a : Nonterminal} :
    a ∈ (Numbering.ofProductions start ps).names ↔ a = start ∨ a ∈ nonterminalsOf ps := by
  rw [Numbering.ofProductions, Numbering.mem_names_insertAll, List.mem_cons]
  simp [Numbering.empty]

theorem knows_ofProductions (start : Nonterminal) (ps : List Production) :
    (Numbering.ofProductions start ps).Knows ps := by
  intro p hp
  have hmem : ∀ a ∈ p.lhs :: p.nonterminals, a ∈ (Numbering.ofProductions start ps).names :=
    fun a ha => mem_names_ofProductions.2 (.inr (List.mem_flatMap.2 ⟨p, hp, ha⟩))
  exact ⟨hmem _ List.mem_cons_self, fun a ha => hmem a (List.mem_cons_of_mem _ ha)⟩

theorem exists_id?_of_mem_names {a : Nonterminal} (h : a ∈ x.names) : ∃ i, x.id? a = some i := by
  cases hi : x.id? a with
  | none => exact absurd h (Numbering.id?_eq_none_iff.1 hi)
  | some i => exact ⟨i, rfl⟩

theorem id?_inj {a b : Nonterminal} {i : Nat} (ha : x.id? a = some i) (hb : x.id? b = some i) :
    a = b := by
  rw [Numbering.id?_eq_some_iff] at ha hb
  exact Option.some.inj (ha.symm.trans hb)

/-! ### The set of some nonterminals -/

theorem has_foldl_add {is : List Nat} {s : IdSet} {i : Nat} (his : ∀ j ∈ is, j < s.size) :
    (is.foldl IdSet.add s).has i = true ↔ s.has i = true ∨ i ∈ is := by
  induction is generalizing s with
  | nil => simp
  | cons j is ih =>
    have hj := his j List.mem_cons_self
    rw [List.foldl_cons, ih fun k hk => by simpa using his k (List.mem_cons_of_mem _ hk),
      IdSet.has_add, Bool.or_eq_true, decide_eq_true_eq, List.mem_cons, or_assoc, eq_comm (a := j)]
    simp only [hj, and_true]

theorem size_foldl_add {is : List Nat} {s : IdSet} : (is.foldl IdSet.add s).size = s.size := by
  induction is generalizing s with
  | nil => rfl
  | cons j is ih => rw [List.foldl_cons, ih, IdSet.size_add]

theorem has_idSet {as : List Nonterminal} {a : Nonterminal} {i : Nat} (hi : x.id? a = some i) :
    (x.idSet as).has i = true ↔ a ∈ as := by
  rw [Numbering.idSet, has_foldl_add]
  · rw [IdSet.has_empty, List.mem_filterMap]
    constructor
    · rintro (h | ⟨b, hb, hbi⟩)
      · cases h
      · exact id?_inj hbi hi ▸ hb
    · exact fun ha => .inr ⟨a, ha, hi⟩
  · intro j hj
    obtain ⟨b, -, hb⟩ := List.mem_filterMap.1 hj
    exact Numbering.lt_size_of_id? hb

theorem size_idSet {as : List Nonterminal} : (x.idSet as).size = x.size := by
  rw [Numbering.idSet, size_foldl_add, IdSet.size_empty]

/-! ### Nonterminals that derive some word -/

/-- `a` derives a word, and the empty one where terminals lack the property. -/
def Attains (rule : TerminalRule) (ps : List Production) (a : Nonterminal) : Prop :=
  ∃ w, Derives ps [.nonterminal a] w ∧ (rule = .lack → w = [])

theorem exists_derives_of_attains {r : List Symbol}
    (ha : ∀ a, .nonterminal a ∈ r → Attains rule ps a)
    (ht : rule = .lack → ∀ t, Symbol.terminal t ∉ r) :
    ∃ w, Derives ps r w ∧ (rule = .lack → w = []) := by
  induction r with
  | nil => exact ⟨[], .nil, fun _ => rfl⟩
  | cons y r ih =>
    obtain ⟨v, hv, hv0⟩ := ih (fun a h => ha a (List.mem_cons_of_mem _ h))
      fun hrule t h => ht hrule t (List.mem_cons_of_mem _ h)
    cases y with
    | terminal t =>
      exact ⟨t :: v, .terminal hv, fun hrule => absurd List.mem_cons_self (ht hrule t)⟩
    | nonterminal a =>
      obtain ⟨u, hu, hu0⟩ := ha a List.mem_cons_self
      exact ⟨u ++ v, hu.append hv, fun hrule => by rw [hu0 hrule, hv0 hrule, List.append_nil]⟩

theorem not_mem_of_derives_nil {r : List Symbol} {w : List Terminal} (h : Derives ps r w)
    (hw : w = []) : ∀ t, Symbol.terminal t ∉ r := by
  induction h with
  | nil => exact fun _ => List.not_mem_nil
  | terminal _ _ => exact absurd hw (List.cons_ne_nil _ _)
  | rule _ _ _ _ ihv =>
    intro t ht
    rcases List.mem_cons.1 ht with h | h
    · cases h
    · exact ihv (List.append_eq_nil_iff.1 hw).2 t h

theorem terminals_eq_nil_iff {p : Production} :
    p.terminals = [] ↔ ∀ t, Symbol.terminal t ∉ p.rhs := by
  rw [List.eq_nil_iff_forall_not_mem]
  exact forall_congr' fun t => not_congr Production.mem_terminals

theorem rhs_eq_nil_iff {p : Production} : p.rhs = [] ↔ p.nonterminals = [] ∧ p.terminals = [] := by
  constructor
  · intro h
    simp [Production.nonterminals, Production.terminals, h]
  · rintro ⟨hn, ht⟩
    refine List.eq_nil_iff_forall_not_mem.2 fun y hy => ?_
    cases y with
    | terminal t => exact terminals_eq_nil_iff.1 ht t hy
    | nonterminal a =>
      exact List.eq_nil_iff_forall_not_mem.1 hn a (Production.mem_nonterminals.2 hy)

theorem Attains.of_production {p : Production} (hp : p ∈ ps)
    (ht : rule = .lack → p.terminals = []) (ha : ∀ a ∈ p.nonterminals, Attains rule ps a) :
    Attains rule ps p.lhs := by
  obtain ⟨w, hw, hw0⟩ := exists_derives_of_attains (r := p.rhs)
    (fun a h => ha a (Production.mem_nonterminals.2 h))
    fun hrule => terminals_eq_nil_iff.1 (ht hrule)
  exact ⟨w, derives_single_iff.2 ⟨p, hp, rfl, hw⟩, hw0⟩

/-- A nonterminal with a production that needs no other nonterminal. -/
def Grounded (rule : TerminalRule) (ps : List Production) (a : Nonterminal) : Prop :=
  ∃ p ∈ ps, p.lhs = a ∧ p.nonterminals = [] ∧ (rule = .lack → p.terminals = [])

section closure

variable {as : List Nonterminal} (has : ∀ a, a ∈ as ↔ Grounded rule ps a)
include has

theorem attains_of_has_closure {i : Nat} (h : ((x.idSet as).closure x ps rule).has i = true) :
    ∀ a, x.id? a = some i → Attains rule ps a := by
  refine closure_least (P := fun i => ∀ a, x.id? a = some i → Attains rule ps a) ?_ ?_ i h
  · intro p hp i hi _ hall a ha
    rw [id?_inj ha hi]
    refine .of_production hp (fun hrule => terminals_eq_nil_iff.2 fun t ht => ?_) fun b hb => ?_
    · have hhold : rule = .hold := hall _ ht
      rw [hrule] at hhold
      cases hhold
    · obtain ⟨j, hj, hattains⟩ := hall _ (Production.mem_nonterminals.1 hb)
      exact hattains b hj
  · intro i hi a ha
    obtain ⟨p, hp, rfl, hn, ht⟩ := (has a).1 ((has_idSet ha).1 hi)
    exact .of_production hp ht (by simp [hn])

theorem has_closure_of_derives (hx : x.Knows ps) {r : List Symbol} {w : List Terminal}
    (h : Derives ps r w) (hw : rule = .lack → w = []) :
    ∀ a, .nonterminal a ∈ r → ∀ i, x.id? a = some i →
      ((x.idSet as).closure x ps rule).has i = true := by
  induction h with
  | nil => exact fun _ h => absurd h List.not_mem_nil
  | terminal _ ih =>
    intro a ha
    exact ih (fun hrule => absurd (hw hrule) (List.cons_ne_nil _ _)) a (by simpa using ha)
  | @rule p _ u _ hp hu _ ihu ihv =>
    intro a ha i hi
    rcases List.mem_cons.1 ha with h | h
    · cases h
      have hu0 : rule = .lack → u = [] := fun hrule => (List.append_eq_nil_iff.1 (hw hrule)).1
      have ht : rule = .lack → ∀ t, Symbol.terminal t ∉ p.rhs := fun hrule =>
        not_mem_of_derives_nil hu (hu0 hrule)
      by_cases hn : p.nonterminals = []
      · have hseed := (has_idSet hi).2
          ((has p.lhs).2 ⟨p, hp, rfl, hn, fun hrule => terminals_eq_nil_iff.2 (ht hrule)⟩)
        exact has_closure_of_has size_idSet hseed
      · refine closure_closed size_idSet p hp i hi hn fun y hy => ?_
        cases y with
        | terminal t =>
          cases hrule : rule with
          | lack => exact absurd hy (ht hrule t)
          | hold => rfl
        | nonterminal b =>
          obtain ⟨j, hj⟩ := exists_id?_of_mem_names
            ((hx p hp).2 b (Production.mem_nonterminals.2 hy))
          exact ⟨j, hj, ihu hu0 b hy j hj⟩
    · exact ihv (fun hrule => (List.append_eq_nil_iff.1 (hw hrule)).2) a h i hi

/-- **The closure is exact.**  Started from the grounded nonterminals, it holds those that derive
some word. -/
theorem has_closure_iff (hx : x.Knows ps) {a : Nonterminal} {i : Nat} (hi : x.id? a = some i) :
    ((x.idSet as).closure x ps rule).has i = true ↔ Attains rule ps a := by
  constructor
  · exact fun h => attains_of_has_closure has h a hi
  · rintro ⟨w, hw, hw0⟩
    exact has_closure_of_derives has hx hw hw0 a (by simp) i hi

end closure

theorem has_nullableSet_iff (hx : x.Knows ps) {a : Nonterminal} {i : Nat}
    (hi : x.id? a = some i) :
    (nullableSet x ps).has i = true ↔ Derives ps [.nonterminal a] [] := by
  have hseed : ∀ b, b ∈ (ps.filter Production.isEmpty).map Production.lhs ↔
      Grounded .lack ps b := by
    intro b
    simp only [List.mem_map, List.mem_filter, Production.isEmpty, List.isEmpty_iff, Grounded,
      true_imp_iff, rhs_eq_nil_iff, and_assoc]
    refine exists_congr fun p => and_congr_right fun _ => ?_
    rw [← and_assoc, and_comm]
  rw [nullableSet, emptySet, has_closure_iff hseed hx hi]
  constructor
  · rintro ⟨w, hw, hw0⟩
    rwa [hw0 rfl] at hw
  · exact fun h => ⟨[], h, fun _ => rfl⟩

theorem has_productiveSet_iff (hx : x.Knows ps) {a : Nonterminal} {i : Nat}
    (hi : x.id? a = some i) :
    (productiveSet x ps).has i = true ↔ ∃ w, Derives ps [.nonterminal a] w := by
  have hseed : ∀ b, b ∈ (ps.filter fun p => p.nonterminals.isEmpty).map Production.lhs ↔
      Grounded .hold ps b := by
    intro b
    simp only [List.mem_map, List.mem_filter, List.isEmpty_iff, Grounded, and_assoc]
    exact exists_congr fun p => and_congr_right fun _ => by simp [and_comm]
  rw [productiveSet, terminalOnlySet, has_closure_iff hseed hx hi]
  simp [Attains]

/-! ### The least fixed point -/

theorem mem_members_iff {s : IdSet} {a : Nonterminal} :
    a ∈ x.members s ↔ ∃ i, x.id? a = some i ∧ s.has i = true := by
  rw [Numbering.members, List.mem_filterMap]
  refine exists_congr fun i => ?_
  rw [IdSet.mem_toList, Numbering.id?_eq_some_iff, and_comm]

/-- What derives some word has a production, and so an id. -/
theorem exists_id?_of_derives (hx : x.Knows ps) {a : Nonterminal} {w : List Terminal}
    (h : Derives ps [.nonterminal a] w) : ∃ i, x.id? a = some i := by
  obtain ⟨p, hp, rfl, -⟩ := derives_single_iff.1 h
  exact exists_id?_of_mem_names (hx p hp).1

/-- **The closure is the least fixed point.**  Once there have been as many steps as ids, no id is
left to be looked at.  The result holds the given ids, is closed under the productions, whatever
nonterminals these mention, and no other such property is narrower.  So, where all nonterminals have
ids, the nullable ones are those that derive the empty word, and the productive ones those that
derive any. -/
theorem closure_leastFixpoint {s : IdSet} (hs : s.size = x.size) (ps : List Production)
    (rule : TerminalRule) :
    ((Worklist.ofSet s).run x rule (occurrences x ps) s.size).stack = [] ∧
      (∀ i, s.has i = true → (s.closure x ps rule).has i = true) ∧
      ClosedUnder x ps rule (fun i => (s.closure x ps rule).has i = true) ∧
      (∀ P : Nat → Prop, (∀ i, s.has i = true → P i) → ClosedUnder x ps rule P →
        ∀ i, (s.closure x ps rule).has i = true → P i) ∧
      (x.Knows ps → ∀ a,
        (a ∈ x.members (nullableSet x ps) ↔ Derives ps [.nonterminal a] []) ∧
        (a ∈ x.members (productiveSet x ps) ↔ ∃ w, Derives ps [.nonterminal a] w)) := by
  refine ⟨stack_closure hs, fun i => has_closure_of_has hs, closure_closed hs,
    fun P hP hclosed => closure_least hclosed hP, fun hx a => ⟨?_, ?_⟩⟩
  · rw [mem_members_iff]
    constructor
    · rintro ⟨i, hi, hhas⟩
      exact (has_nullableSet_iff hx hi).1 hhas
    · intro h
      obtain ⟨i, hi⟩ := exists_id?_of_derives hx h
      exact ⟨i, hi, (has_nullableSet_iff hx hi).2 h⟩
  · rw [mem_members_iff]
    constructor
    · rintro ⟨i, hi, hhas⟩
      exact (has_productiveSet_iff hx hi).1 hhas
    · rintro ⟨w, h⟩
      obtain ⟨i, hi⟩ := exists_id?_of_derives hx h
      exact ⟨i, hi, (has_productiveSet_iff hx hi).2 ⟨w, h⟩⟩

/-- A start symbol that is empty only after its two parts are, one of which needs the other twice; a
letter before that part; and a nonterminal without an end. -/
def optionalParts : List Production :=
  [⟨⟨"S"⟩, [.nonterminal ⟨"A"⟩, .nonterminal ⟨"B"⟩]⟩,
    ⟨⟨"A"⟩, [.nonterminal ⟨"B"⟩, .nonterminal ⟨"B"⟩]⟩, ⟨⟨"B"⟩, []⟩,
    ⟨⟨"C"⟩, [.terminal ⟨"c"⟩, .nonterminal ⟨"A"⟩]⟩, ⟨⟨"D"⟩, [.nonterminal ⟨"D"⟩]⟩]

/-- The ids of `S`, `A`, `B`, `C` and `D`, in this order. -/
def optionalIds : Numbering := Numbering.ofProductions ⟨"S"⟩ optionalParts

/-- The start symbol is empty; the letter is no empty word, but some word; what has no end is
neither. -/
theorem closure_leastFixpoint_optionalParts :
    (emptySet optionalIds optionalParts).size = optionalIds.size ∧
      optionalIds.Knows optionalParts ∧
      ((Worklist.ofSet (emptySet optionalIds optionalParts)).run optionalIds .lack
        (occurrences optionalIds optionalParts) (emptySet optionalIds optionalParts).size).stack =
          [] ∧
      Derives optionalParts [.nonterminal ⟨"S"⟩] [] ∧
      ¬Derives optionalParts [.nonterminal ⟨"C"⟩] [] ∧
      (∃ w, Derives optionalParts [.nonterminal ⟨"C"⟩] w) ∧
      ¬∃ w, Derives optionalParts [.nonterminal ⟨"D"⟩] w := by
  have hsize : (emptySet optionalIds optionalParts).size = optionalIds.size := size_idSet
  have hx : optionalIds.Knows optionalParts := knows_ofProductions _ _
  obtain ⟨hstack, -, -, -, hexact⟩ := closure_leastFixpoint hsize optionalParts .lack
  refine ⟨hsize, hx, hstack, (hexact hx ⟨"S"⟩).1.1 (by decide +kernel), fun h => ?_,
    (hexact hx ⟨"C"⟩).2.1 (by decide +kernel), fun h => ?_⟩
  · exact absurd ((hexact hx ⟨"C"⟩).1.2 h) (by decide +kernel)
  · exact absurd ((hexact hx ⟨"D"⟩).2.2 h) (by decide +kernel)

end GrammarSampler
