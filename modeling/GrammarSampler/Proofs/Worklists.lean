import GrammarSampler.Analysis.Closure

/-!
# The worklist of a closure

`IdSet.closure` takes one id after the other off a stack and looks at the productions on whose
right-hand sides the id occurs; `occurrencesOf_occurrences` says which it finds.  A production is
looked at again only when one of its own symbols comes off the stack, and that is enough: whatever
is due has a symbol that is still on the stack (`Worklist.Covered`).  Each step takes an id off that
never comes back (`Worklist.work_step_lt`), so that the stack is empty in the end (`stack_closure`)
and nothing is due any more (`closure_closed`).  Only what is due is ever added (`closure_least`).
-/

namespace GrammarSampler

/-! ### Where nonterminals occur -/

/-- In order of the symbols. -/
def BySymbol (os : List Occurrence) : Prop := os.Pairwise fun o o' => o.symbol ≤ o'.symbol

theorem mem_insertOccurrence {o o' : Occurrence} {os : List Occurrence} :
    o' ∈ insertOccurrence o os ↔ o' = o ∨ o' ∈ os := by
  induction os with
  | nil => simp [insertOccurrence]
  | cons o₁ os ih =>
    rw [insertOccurrence]
    split
    · exact List.mem_cons
    · rw [List.mem_cons, ih, List.mem_cons, or_left_comm]

theorem BySymbol.insert {os : List Occurrence} (h : BySymbol os) (o : Occurrence) :
    BySymbol (insertOccurrence o os) := by
  induction os with
  | nil => exact List.pairwise_singleton ..
  | cons o₁ os ih =>
    obtain ⟨hfirst, hrest⟩ := List.pairwise_cons.1 h
    rw [insertOccurrence]
    split
    · next hle =>
      refine List.pairwise_cons.2 ⟨fun o' ho' => ?_, h⟩
      rcases List.mem_cons.1 ho' with rfl | ho'
      · exact hle
      · exact Nat.le_trans hle (hfirst o' ho')
    · next hle =>
      refine List.pairwise_cons.2 ⟨fun o' ho' => ?_, ih hrest⟩
      rcases mem_insertOccurrence.1 ho' with rfl | ho'
      · exact Nat.le_of_not_le hle
      · exact hfirst o' ho'

/-- Entries of one symbol stay in the order of their insertion. -/
theorem filter_insertOccurrence (i : Nat) (o : Occurrence) (os : List Occurrence) :
    (insertOccurrence o os).filter (fun o => o.symbol = i) =
      (o :: os).filter fun o => o.symbol = i := by
  induction os with
  | nil => rfl
  | cons o₁ os ih =>
    rw [insertOccurrence]
    split
    · rfl
    · next hle =>
      rw [List.filter_cons, ih]
      by_cases h : o.symbol = i
      · have h₁ : o₁.symbol ≠ i := by omega
        simp [h, h₁]
      · simp [List.filter_cons, h]

/-- Searching an ordered list finds all entries of a symbol. -/
theorem BySymbol.occurrencesOf_eq {os : List Occurrence} (h : BySymbol os) (i : Nat) :
    occurrencesOf i os = os.filter fun o => o.symbol = i := by
  induction os with
  | nil => rfl
  | cons o os ih =>
    obtain ⟨hfirst, hrest⟩ := List.pairwise_cons.1 h
    have ih := ih hrest
    rw [occurrencesOf] at ih ⊢
    rcases Nat.lt_trichotomy o.symbol i with hlt | heq | hgt
    · rw [List.dropWhile_cons_of_pos (by simpa using hlt), ih,
        List.filter_cons_of_neg (by simpa using Nat.ne_of_lt hlt)]
    · have hdrop : (os.dropWhile fun o => o.symbol < i) = os := by
        cases os with
        | nil => rfl
        | cons o' os =>
          have hle := hfirst o' List.mem_cons_self
          exact List.dropWhile_cons_of_neg (by simp; omega)
      rw [hdrop] at ih
      rw [List.dropWhile_cons_of_neg (by simp; omega),
        List.takeWhile_cons_of_pos (by simpa using heq), ih,
        List.filter_cons_of_pos (by simpa using heq)]
    · have hnone : ∀ o' ∈ o :: os, ¬ o'.symbol = i := by
        intro o' ho'
        rcases List.mem_cons.1 ho' with rfl | ho'
        · omega
        · have hle := hfirst o' ho'
          omega
      rw [List.dropWhile_cons_of_neg (by simp; omega), List.takeWhile_cons_of_neg (by simp; omega),
        List.filter_eq_nil_iff.2 (by simpa using hnone)]

variable {x : Numbering} {ps : List Production} {rule : TerminalRule}

/-- The occurrences that are found for an id, in reading order. -/
theorem occurrencesOf_occurrences (x : Numbering) (ps : List Production) (i : Nat) :
    occurrencesOf i (occurrences x ps) =
      (ps.flatMap (Production.occurrences x)).filter fun o => o.symbol = i := by
  have hsorted : ∀ os : List Occurrence, BySymbol (os.foldr insertOccurrence []) := by
    intro os
    induction os with
    | nil => exact .nil
    | cons o os ih => exact ih.insert o
  rw [occurrences, (hsorted _).occurrencesOf_eq]
  induction ps.flatMap (Production.occurrences x) with
  | nil => rfl
  | cons o os ih =>
    rw [List.foldr_cons, filter_insertOccurrence, List.filter_cons, List.filter_cons, ih]

theorem mem_occurrences_production {p : Production} {o : Occurrence} :
    o ∈ p.occurrences x ↔ x.id? p.lhs = some o.lhs ∧ o.rhs = p.rhs ∧
      ∃ a ∈ p.nonterminals, x.id? a = some o.symbol := by
  obtain ⟨i, l, r⟩ := o
  unfold Production.occurrences
  cases x.id? p.lhs with
  | none => simp
  | some l' =>
    simp only [List.mem_map, List.mem_filterMap, Occurrence.mk.injEq, Option.some.injEq]
    constructor
    · rintro ⟨j, ha, rfl, rfl, rfl⟩
      exact ⟨rfl, rfl, ha⟩
    · rintro ⟨rfl, rfl, ha⟩
      exact ⟨i, ha, rfl, rfl, rfl⟩

theorem mem_occurrencesOf_iff {i : Nat} {o : Occurrence} :
    o ∈ occurrencesOf i (occurrences x ps) ↔ o.symbol = i ∧ ∃ p ∈ ps,
      x.id? p.lhs = some o.lhs ∧ o.rhs = p.rhs ∧ ∃ a ∈ p.nonterminals, x.id? a = some o.symbol := by
  rw [occurrencesOf_occurrences, List.mem_filter, List.mem_flatMap, and_comm, decide_eq_true_eq]
  simp only [mem_occurrences_production]

/-! ### Closed properties -/

/-- The symbol has the property, when the ids with `P` do. -/
def Numbering.Grants (x : Numbering) (rule : TerminalRule) (P : Nat → Prop) : Symbol → Prop
  | .terminal _ => rule = .hold
  | .nonterminal a => ∃ i, x.id? a = some i ∧ P i

/-- `P` holds of the left-hand side of every production with a nonterminal on the right, if all
symbols there have the property. -/
def ClosedUnder (x : Numbering) (ps : List Production) (rule : TerminalRule) (P : Nat → Prop) :
    Prop :=
  ∀ p ∈ ps, ∀ i, x.id? p.lhs = some i → p.nonterminals ≠ [] →
    (∀ y ∈ p.rhs, x.Grants rule P y) → P i

theorem grants_iff {s : IdSet} {y : Symbol} :
    x.grants rule s y = true ↔ x.Grants rule (fun i => s.has i = true) y := by
  cases y with
  | terminal t => simp [Numbering.grants, Numbering.Grants]
  | nonterminal a => simp [Numbering.grants, Numbering.Grants, Option.any_eq_true]

theorem Numbering.Grants.imp {P Q : Nat → Prop} {y : Symbol} (h : x.Grants rule P y)
    (himp : ∀ a i, y = .nonterminal a → x.id? a = some i → P i → Q i) : x.Grants rule Q y := by
  cases y with
  | terminal t => exact h
  | nonterminal a =>
    obtain ⟨i, hi, hP⟩ := h
    exact ⟨i, hi, himp a i rfl hi hP⟩

/-! ### The steps of a worklist -/

/-- The number of ids that are not in the set. -/
def IdSet.missing (s : IdSet) : Nat := (List.range s.size).countP fun i => !s.has i

theorem missing_add_lt {s : IdSet} {i : Nat} (hi : i < s.size) (hs : s.has i = false) :
    (s.add i).missing < s.missing := by
  unfold IdSet.missing
  rw [IdSet.size_add, List.countP_eq_length_filter, List.countP_eq_length_filter]
  have hsub : (List.range s.size).filter (fun j => !(s.add i).has j) =
      ((List.range s.size).filter fun j => !s.has j).filter fun j => decide (i ≠ j) := by
    rw [List.filter_filter]
    refine List.filter_congr fun j _ => ?_
    rw [IdSet.has_add]
    by_cases hj : i = j <;> simp [hj, hi]
    omega
  rw [hsub]
  refine List.length_filter_lt_length_iff_exists.2 ⟨i, ?_, by simp⟩
  simp [hi, hs]

theorem count_add_missing (s : IdSet) : s.count + s.missing = s.size := by
  have hsplit := List.length_eq_countP_add_countP s.has (l := List.range s.size)
  rw [List.length_range] at hsplit
  rw [IdSet.count, IdSet.toList, IdSet.missing, ← List.countP_eq_length_filter]
  simpa using hsplit.symm

namespace Worklist

/-- What is still to be done at most: the ids to look at, and those that may come to it. -/
def work (w : Worklist) : Nat := w.stack.length + w.set.missing

/-- What visits leave of a worklist: nothing is lost, and what is new is still to be looked at. -/
structure Grows (w w' : Worklist) : Prop where
  size : w'.set.size = w.set.size
  keeps : ∀ i, w.set.has i = true → w'.set.has i = true
  stack : ∀ i ∈ w.stack, i ∈ w'.stack
  new : ∀ i, w'.set.has i = true → w.set.has i = true ∨ i ∈ w'.stack
  work : w'.work ≤ w.work

theorem Grows.refl (w : Worklist) : Grows w w :=
  ⟨rfl, fun _ h => h, fun _ h => h, fun _ h => .inl h, Nat.le_refl _⟩

theorem Grows.trans {w w' w'' : Worklist} (h : Grows w w') (h' : Grows w' w'') : Grows w w'' where
  size := h'.size.trans h.size
  keeps i hi := h'.keeps i (h.keeps i hi)
  stack i hi := h'.stack i (h.stack i hi)
  new i hi := by
    rcases h'.new i hi with hi | hi
    · exact (h.new i hi).imp id (h'.stack i)
    · exact .inr hi
  work := Nat.le_trans h'.work h.work

/-- **One visit**: the left-hand side gains the property, or nothing changes. -/
theorem visit_cases (x : Numbering) (rule : TerminalRule) (w : Worklist) (o : Occurrence) :
    (w.set.has o.lhs = false ∧ (∀ y ∈ o.rhs, x.grants rule w.set y = true) ∧
        w.visit x rule o = ⟨w.set.add o.lhs, o.lhs :: w.stack⟩) ∨
      ((∀ y ∈ o.rhs, x.grants rule w.set y = true) → w.set.has o.lhs = true) ∧
        w.visit x rule o = w := by
  unfold visit
  split
  · next h =>
    rw [Bool.and_eq_true, List.all_eq_true, Bool.not_eq_true'] at h
    exact .inl ⟨h.1, h.2, rfl⟩
  · next h =>
    refine .inr ⟨fun hall => ?_, rfl⟩
    rw [Bool.and_eq_true, List.all_eq_true, Bool.not_eq_true'] at h
    simpa using fun hlhs => h ⟨hlhs, hall⟩

theorem grows_visit {w : Worklist} {o : Occurrence} (ho : o.lhs < w.set.size) :
    Grows w (w.visit x rule o) := by
  rcases visit_cases x rule w o with ⟨hnew, -, heq⟩ | ⟨-, heq⟩
  · rw [heq]
    have hmissing := missing_add_lt ho hnew
    refine ⟨IdSet.size_add .., fun i hi => ?_, fun i hi => List.mem_cons_of_mem _ hi,
      fun i hi => ?_, ?_⟩
    · rw [IdSet.has_add, hi, Bool.true_or]
    · rw [IdSet.has_add, Bool.or_eq_true, decide_eq_true_eq] at hi
      refine hi.imp id ?_
      rintro ⟨rfl, -⟩
      exact List.mem_cons_self
    · show w.stack.length + 1 + (w.set.add o.lhs).missing ≤ w.stack.length + w.set.missing
      omega
  · rw [heq]
    exact .refl w

theorem has_lhs_visit {w : Worklist} {o : Occurrence} (ho : o.lhs < w.set.size)
    (hall : ∀ y ∈ o.rhs, x.grants rule w.set y = true) :
    (w.visit x rule o).set.has o.lhs = true := by
  rcases visit_cases x rule w o with ⟨-, -, heq⟩ | ⟨hlhs, heq⟩
  · rw [heq, IdSet.has_add]
    simp [ho]
  · rw [heq]
    exact hlhs hall

theorem grants_of_grows {w w' : Worklist} (h : Grows w w') {y : Symbol}
    (hy : x.grants rule w.set y = true) : x.grants rule w'.set y = true :=
  grants_iff.2 ((grants_iff.1 hy).imp fun _ i _ _ hi => h.keeps i hi)

/-- **Several visits** lose nothing, and each gives its left-hand side what is due. -/
theorem grows_visits {os : List Occurrence} {w : Worklist} (hos : ∀ o ∈ os, o.lhs < w.set.size) :
    Grows w (os.foldl (visit x rule) w) ∧
      ∀ o ∈ os, (∀ y ∈ o.rhs, x.grants rule w.set y = true) →
        (os.foldl (visit x rule) w).set.has o.lhs = true := by
  induction os generalizing w with
  | nil => exact ⟨.refl w, by simp⟩
  | cons o os ih =>
    obtain ⟨ho, hos⟩ := List.forall_mem_cons.1 hos
    have hvisit : Grows w (w.visit x rule o) := grows_visit ho
    obtain ⟨hgrows, hrest⟩ := ih (hvisit.size ▸ hos)
    refine ⟨hvisit.trans hgrows, List.forall_mem_cons.2 ⟨fun hall => ?_, fun o' ho' hall => ?_⟩⟩
    · exact hgrows.keeps _ (has_lhs_visit ho hall)
    · exact hrest o' ho' fun y hy => grants_of_grows hvisit (hall y hy)

theorem lhs_lt_of_mem_occurrencesOf {i : Nat} {o : Occurrence}
    (ho : o ∈ occurrencesOf i (occurrences x ps)) : o.lhs < x.size := by
  obtain ⟨-, p, -, hlhs, -⟩ := mem_occurrencesOf_iff.1 ho
  exact Numbering.lt_size_of_id? hlhs

/-- One step on a stack that is not empty: the id on top is gone, and all its occurrences have been
visited. -/
theorem step_spec (ps : List Production) (rule : TerminalRule) {w : Worklist} {i : Nat}
    {stack : List Nat} (hsize : w.set.size = x.size) (hstack : w.stack = i :: stack) :
    Grows ⟨w.set, stack⟩ (w.step x rule (occurrences x ps)) ∧
      ∀ o ∈ occurrencesOf i (occurrences x ps), (∀ y ∈ o.rhs, x.grants rule w.set y = true) →
        (w.step x rule (occurrences x ps)).set.has o.lhs = true := by
  have hos : ∀ o ∈ occurrencesOf i (occurrences x ps), o.lhs < w.set.size := fun o ho =>
    hsize ▸ lhs_lt_of_mem_occurrencesOf ho
  rw [step, hstack]
  exact grows_visits (w := ⟨w.set, stack⟩) hos

/-! ### What the steps keep -/

/-- What is due is covered by the stack: where all symbols on a right-hand side have the property
and the left-hand side has not, one of them is still to be looked at. -/
def Covered (x : Numbering) (ps : List Production) (rule : TerminalRule) (w : Worklist) : Prop :=
  ∀ p ∈ ps, ∀ i, x.id? p.lhs = some i → p.nonterminals ≠ [] →
    (∀ y ∈ p.rhs, x.grants rule w.set y = true) →
    w.set.has i = true ∨ ∃ a ∈ p.nonterminals, ∃ j ∈ w.stack, x.id? a = some j

theorem covered_ofSet (s : IdSet) : Covered x ps rule (ofSet s) := by
  intro p _ i _ hne hall
  obtain ⟨a, ha⟩ := List.exists_mem_of_ne_nil _ hne
  obtain ⟨j, hj, hhas⟩ := grants_iff.1 (hall _ (Production.mem_nonterminals.1 ha))
  exact .inr ⟨a, ha, j, List.mem_reverse.2 (IdSet.mem_toList.2 hhas), hj⟩

theorem Covered.step {w : Worklist} (h : Covered x ps rule w) (hsize : w.set.size = x.size) :
    Covered x ps rule (w.step x rule (occurrences x ps)) := by
  cases hstack : w.stack with
  | nil =>
    rw [Worklist.step, hstack]
    exact h
  | cons k stack =>
    obtain ⟨hgrows, hvisited⟩ := step_spec ps rule hsize hstack
    intro p hp i hi hne hall
    by_cases hnew : ∃ a ∈ p.nonterminals,
        ∃ j ∈ (w.step x rule (occurrences x ps)).stack, x.id? a = some j
    · exact .inr hnew
    · -- no symbol is new, so that all had the property before the step
      have hold : ∀ y ∈ p.rhs, x.grants rule w.set y = true := by
        intro y hy
        refine grants_iff.2 ((grants_iff.1 (hall y hy)).imp ?_)
        rintro a j rfl hj hhas
        refine (hgrows.new j hhas).resolve_right fun hmem => hnew ?_
        exact ⟨a, Production.mem_nonterminals.2 hy, j, hmem, hj⟩
      rcases h p hp i hi hne hold with hhas | ⟨a, ha, j, hj, haj⟩
      · exact .inl (hgrows.keeps i hhas)
      · rw [hstack] at hj
        rcases List.mem_cons.1 hj with rfl | hj
        · have ho : (⟨j, i, p.rhs⟩ : Occurrence) ∈ occurrencesOf j (occurrences x ps) :=
            mem_occurrencesOf_iff.2 ⟨rfl, p, hp, hi, rfl, a, ha, haj⟩
          exact .inl (hvisited _ ho hold)
        · exact absurd ⟨a, ha, j, hgrows.stack j hj, haj⟩ hnew

theorem size_step {w : Worklist} (hsize : w.set.size = x.size) :
    (w.step x rule (occurrences x ps)).set.size = x.size := by
  cases hstack : w.stack with
  | nil => rwa [step, hstack]
  | cons k stack => exact (step_spec ps rule hsize hstack).1.size.trans hsize

theorem keeps_step {w : Worklist} (hsize : w.set.size = x.size) {i : Nat}
    (hi : w.set.has i = true) : (w.step x rule (occurrences x ps)).set.has i = true := by
  cases hstack : w.stack with
  | nil => rwa [step, hstack]
  | cons k stack => exact (step_spec ps rule hsize hstack).1.keeps i hi

/-- A step takes an id off the stack, which does not come back. -/
theorem work_step_lt (ps : List Production) (rule : TerminalRule) {w : Worklist}
    (hsize : w.set.size = x.size) (hstack : w.stack ≠ []) :
    (w.step x rule (occurrences x ps)).work < w.work := by
  obtain ⟨k, stack, hstack⟩ := List.exists_cons_of_ne_nil hstack
  have hwork := (step_spec ps rule hsize hstack).1.work
  rw [Worklist.work, Worklist.work, hstack, List.length_cons] at *
  simp only at hwork
  omega

/-- Only what is due is added. -/
theorem visits_least {P : Nat → Prop} (hP : ClosedUnder x ps rule P) {i : Nat}
    {os : List Occurrence} (hos : ∀ o ∈ os, o ∈ occurrencesOf i (occurrences x ps)) {w : Worklist}
    (hw : ∀ j, w.set.has j = true → P j) :
    ∀ j, (os.foldl (visit x rule) w).set.has j = true → P j := by
  induction os generalizing w with
  | nil => exact hw
  | cons o os ih =>
    obtain ⟨ho, hos⟩ := List.forall_mem_cons.1 hos
    refine ih hos fun j hj => ?_
    rcases visit_cases x rule w o with ⟨-, hall, heq⟩ | ⟨-, heq⟩
    · rw [heq, IdSet.has_add, Bool.or_eq_true, decide_eq_true_eq] at hj
      rcases hj with hj | ⟨rfl, -⟩
      · exact hw j hj
      · obtain ⟨-, p, hp, hlhs, hrhs, a, ha, -⟩ := mem_occurrencesOf_iff.1 ho
        refine hP p hp _ hlhs (List.ne_nil_of_mem ha) fun y hy => ?_
        exact (grants_iff.1 (hall y (hrhs ▸ hy))).imp fun _ k _ _ hk => hw k hk
    · exact hw j (heq ▸ hj)

theorem step_least {P : Nat → Prop} (hP : ClosedUnder x ps rule P) {w : Worklist}
    (hw : ∀ j, w.set.has j = true → P j) :
    ∀ j, (w.step x rule (occurrences x ps)).set.has j = true → P j := by
  cases hstack : w.stack with
  | nil => rwa [step, hstack]
  | cons k stack =>
    rw [step, hstack]
    exact visits_least hP (fun _ ho => ho) hw

/-- What every step keeps, a run keeps. -/
theorem run_induct {os : List Occurrence} {I : Worklist → Prop}
    (hstep : ∀ w, I w → I (w.step x rule os)) {n : Nat} {w : Worklist} (hw : I w) :
    I (w.run x rule os n) := by
  induction n generalizing w with
  | zero => exact hw
  | succ n ih => exact ih (hstep w hw)

/-- **The work runs out** before the steps do. -/
theorem stack_run_eq_nil {n : Nat} {w : Worklist} (hsize : w.set.size = x.size)
    (hn : w.stack = [] ∨ w.work ≤ n) : (w.run x rule (occurrences x ps) n).stack = [] := by
  induction n generalizing w with
  | zero =>
    rcases hn with hstack | hwork
    · exact hstack
    · exact List.length_eq_zero_iff.1 (Nat.le_zero.1 (Nat.le_trans (Nat.le_add_right ..) hwork))
  | succ n ih =>
    refine ih (size_step hsize) ?_
    by_cases hstack : w.stack = []
    · rw [step, hstack]
      exact .inl hstack
    · have hwork := hn.resolve_left hstack
      have hlt := work_step_lt ps rule hsize hstack
      exact .inr (by omega)

end Worklist

/-! ### The closure -/

section fixpoint

variable {s : IdSet}

/-- No id is left to be looked at. -/
theorem stack_closure (hs : s.size = x.size) :
    ((Worklist.ofSet s).run x rule (occurrences x ps) s.size).stack = [] := by
  refine Worklist.stack_run_eq_nil hs (.inr (Nat.le_of_eq ?_))
  rw [Worklist.work, Worklist.ofSet, List.length_reverse]
  exact count_add_missing s

theorem has_closure_of_has (hs : s.size = x.size) {i : Nat} (hi : s.has i = true) :
    (s.closure x ps rule).has i = true := by
  have hkeep : ∀ w : Worklist, w.set.size = x.size ∧ w.set.has i = true →
      (w.step x rule (occurrences x ps)).set.size = x.size ∧
        (w.step x rule (occurrences x ps)).set.has i = true := fun w hw =>
    ⟨Worklist.size_step hw.1, Worklist.keeps_step hw.1 hw.2⟩
  exact (Worklist.run_induct hkeep (w := Worklist.ofSet s) ⟨hs, hi⟩).2

/-- The closure is closed: at the end nothing covers what would be due. -/
theorem closure_closed (hs : s.size = x.size) :
    ClosedUnder x ps rule fun i => (s.closure x ps rule).has i = true := by
  have hkeep : ∀ w : Worklist, w.set.size = x.size ∧ w.Covered x ps rule →
      (w.step x rule (occurrences x ps)).set.size = x.size ∧
        (w.step x rule (occurrences x ps)).Covered x ps rule := fun w hw =>
    ⟨Worklist.size_step hw.1, hw.2.step hw.1⟩
  obtain ⟨-, hcovered⟩ := Worklist.run_induct hkeep (n := s.size) (w := Worklist.ofSet s)
    ⟨hs, Worklist.covered_ofSet s⟩
  intro p hp i hi hne hall
  rcases hcovered p hp i hi hne fun y hy => grants_iff.2 (hall y hy) with hhas | ⟨a, -, j, hj, -⟩
  · exact hhas
  · rw [stack_closure hs] at hj
    cases hj

/-- No other closed property is narrower. -/
theorem closure_least {P : Nat → Prop} (hP : ClosedUnder x ps rule P)
    (hs : ∀ i, s.has i = true → P i) : ∀ i, (s.closure x ps rule).has i = true → P i :=
  Worklist.run_induct (I := fun w => ∀ i, w.set.has i = true → P i)
    (fun _ hw => Worklist.step_least hP hw) hs

end fixpoint

end GrammarSampler
