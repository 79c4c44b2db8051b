import GrammarSampler.NormalForm.UnitFree
import GrammarSampler.Proofs.Abbreviation
import GrammarSampler.Proofs.RelationClosures

/-!
# Elimination of unit productions keeps the language

In `eliminateUnits ps start` each nonterminal has the productions, other than unit productions, of
all nonterminals that it reaches by unit productions (`mem_eliminateUnits`).  So nothing new is
derived (`derives_of_derives_eliminateUnits`), and what derives without empty productions still does
(`derives_nonempty_eliminateUnits`): a unit production is followed by the first other production of
the derivation, and the two together are one production now.  `eliminateUnits_trees` states this of
trees, along with the form of the productions that are left.
-/

namespace GrammarSampler

open Relation

/-- A unit production rewrites `a` to `b`. -/
def UnitStep (ps : List Production) (a b : Nonterminal) : Prop := ⟨a, [.nonterminal b]⟩ ∈ ps

variable {ps : List Production} {start : Nonterminal}

theorem derives_of_unitSteps {a b : Nonterminal} {w : List Terminal}
    (h : ReflTransGen (UnitStep ps) a b) (hb : Derives ps [.nonterminal b] w) :
    Derives ps [.nonterminal a] w := by
  induction h using ReflTransGen.head_induction_on with
  | refl => exact hb
  | head h _ ih => exact derives_single_iff.2 ⟨_, h, rfl, ih⟩

/-! ### The productions after elimination -/

theorem mem_unit_uses_iff {a b : Nonterminal} :
    (a, b) ∈ (ps.filter Production.isUnit).flatMap Production.uses ↔ UnitStep ps a b := by
  simp only [List.mem_flatMap, List.mem_filter, Production.isUnit_iff, Production.uses,
    List.mem_map, Production.mem_nonterminals, Prod.mk.injEq]
  constructor
  · rintro ⟨⟨c, r⟩, ⟨hp, d, hr⟩, e, he, rfl, rfl⟩
    obtain rfl : r = [.nonterminal d] := hr
    obtain rfl : e = d := by simpa using he
    exact hp
  · intro h
    exact ⟨_, ⟨h, b, rfl⟩, b, by simp, rfl, rfl⟩

/-- The numbering of the productions knows all of their unit steps. -/
theorem links_unit_uses_iff {a b : Nonterminal} :
    (Numbering.ofProductions start ps).Links
      ((ps.filter Production.isUnit).flatMap Production.uses) a b ↔ UnitStep ps a b := by
  have hx := knows_ofProductions start ps
  rw [Numbering.Links, mem_unit_uses_iff]
  refine and_iff_left_of_imp fun h => ?_
  have hp := hx _ h
  exact ⟨hp.1, hp.2 b (Production.mem_nonterminals.2 (by simp))⟩

theorem has_unitDerivation_iff {a b : Nonterminal} {i j : Nat}
    (ha : (Numbering.ofProductions start ps).id? a = some i)
    (hb : (Numbering.ofProductions start ps).id? b = some j) :
    (unitDerivation (Numbering.ofProductions start ps) ps).has i j = true ↔
      ReflTransGen (UnitStep ps) a b := by
  rw [unitDerivation, has_relation_closure_iff ha hb]
  have hrel : (Numbering.ofProductions start ps).Links
      ((ps.filter Production.isUnit).flatMap Production.uses) = UnitStep ps := by
    ext c d
    exact links_unit_uses_iff
  rw [hrel]

theorem mem_names_of_unitSteps {a b : Nonterminal} (h : ReflTransGen (UnitStep ps) a b)
    (ha : a ∈ (Numbering.ofProductions start ps).names) :
    b ∈ (Numbering.ofProductions start ps).names := by
  rcases reflTransGen_iff_eq_or_transGen.1 h with rfl | h
  · exact ha
  · obtain ⟨c, -, hcb⟩ := TransGen.tail'_iff.1 h
    exact (knows_ofProductions start ps _ hcb).2 b (Production.mem_nonterminals.2 (by simp))

/-- The nonterminals that `a` takes productions from are those it reaches by unit productions. -/
theorem mem_takenOver_iff {a b : Nonterminal} {i : Nat}
    (ha : (Numbering.ofProductions start ps).id? a = some i) :
    b ∈ (takenOver (unitDerivation (Numbering.ofProductions start ps) ps) i).filterMap
      (Numbering.ofProductions start ps).get? ↔ ReflTransGen (UnitStep ps) a b := by
  rw [List.mem_filterMap]
  constructor
  · rintro ⟨j, hj, hb⟩
    rw [← Numbering.id?_eq_some_iff] at hb
    rcases List.mem_cons.1 hj with rfl | hj
    · rw [id?_inj hb ha]
    · have hmem := (List.mem_filter.1 (List.mem_filter.1 hj).1).2
      exact (has_unitDerivation_iff ha hb).1 hmem
  · intro h
    have hnames : a ∈ (Numbering.ofProductions start ps).names :=
      List.mem_of_getElem? (Numbering.id?_eq_some_iff.1 ha)
    obtain ⟨j, hj⟩ := exists_id?_of_mem_names (mem_names_of_unitSteps h hnames)
    refine ⟨j, ?_, Numbering.id?_eq_some_iff.1 hj⟩
    by_cases hij : j = i
    · exact hij ▸ List.mem_cons_self
    · have hhas := (has_unitDerivation_iff ha hj).2 h
      have hlt : j < (unitDerivation (Numbering.ofProductions start ps) ps).size := by
        rw [unitDerivation, size_relation_closure]
        exact Numbering.lt_size_of_id? hj
      refine List.mem_cons_of_mem _ (List.mem_filter.2 ⟨?_, by simpa using hij⟩)
      exact List.mem_filter.2 ⟨List.mem_range.2 hlt, hhas⟩

theorem mem_toList_iff {x : Numbering} {i : Nat} {a : Nonterminal} :
    (i, a) ∈ x.toList ↔ x.id? a = some i := by
  rw [Numbering.id?_eq_some_iff]
  simp [Numbering.toList, Numbering.get?, List.mem_zipIdx_iff_getElem?]

theorem mem_alternativesFor_iff {a : Nonterminal} {r : List Symbol} :
    r ∈ alternativesFor a ps ↔ ⟨a, r⟩ ∈ ps := by
  simp only [alternativesFor, List.mem_map, List.mem_filter, decide_eq_true_eq]
  constructor
  · rintro ⟨p, ⟨hp, rfl⟩, rfl⟩
    exact hp
  · exact fun h => ⟨_, ⟨h, rfl⟩, rfl⟩

/-- **The productions after elimination**: those of all that a nonterminal reaches by unit
productions, except for these and for empty ones of other symbols than the start symbol. -/
theorem mem_eliminateUnits {q : Production} : q ∈ eliminateUnits ps start ↔
    q.lhs ∈ (Numbering.ofProductions start ps).names ∧
      (∃ b, ReflTransGen (UnitStep ps) q.lhs b ∧ ⟨b, q.rhs⟩ ∈ ps ∧
        Production.isUnit ⟨b, q.rhs⟩ = false) ∧ (q.rhs ≠ [] ∨ q.lhs = start) := by
  obtain ⟨a, r⟩ := q
  have hkeep : ∀ {c s}, (if (s : List Symbol).isEmpty && (c : Nonterminal) ≠ start then none
      else some (Production.mk c s)) = some ⟨a, r⟩ ↔ (c = a ∧ s = r) ∧ (r ≠ [] ∨ a = start) := by
    intro c s
    split
    · next h =>
      simp only [Bool.and_eq_true, List.isEmpty_iff, decide_eq_true_eq] at h
      simp only [reduceCtorEq, false_iff]
      rintro ⟨⟨rfl, rfl⟩, hr | ha⟩
      · exact hr h.1
      · exact h.2 ha
    · next h =>
      simp only [Bool.and_eq_true, List.isEmpty_iff, decide_eq_true_eq, not_and_or, not_not] at h
      simp only [Option.some.injEq, Production.mk.injEq]
      exact ⟨fun hq => ⟨hq, hq.1 ▸ hq.2 ▸ h⟩, And.left⟩
  unfold eliminateUnits
  simp only [List.mem_eraseDups, List.mem_flatMap, List.mem_filterMap (f := fun _ => ite _ _ _),
    Prod.exists, mem_toList_iff, mem_alternativesFor_iff, List.mem_filter, Bool.not_eq_true', hkeep]
  constructor
  · rintro ⟨i, c, hi, s, ⟨b, hb, hp, hunit⟩, ⟨rfl, rfl⟩, hkeep⟩
    exact ⟨List.mem_of_getElem? (Numbering.id?_eq_some_iff.1 hi),
      ⟨b, (mem_takenOver_iff hi).1 hb, hp, hunit⟩, hkeep⟩
  · rintro ⟨hnames, ⟨b, hb, hp, hunit⟩, hkeep⟩
    obtain ⟨i, hi⟩ := exists_id?_of_mem_names hnames
    exact ⟨i, a, hi, r, ⟨b, (mem_takenOver_iff hi).2 hb, hp, hunit⟩, ⟨rfl, rfl⟩, hkeep⟩

/-! ### The language -/

/-- Elimination derives nothing new. -/
theorem derives_of_derives_eliminateUnits {r : List Symbol} {w : List Terminal}
    (h : Derives (eliminateUnits ps start) r w) : Derives ps r w := by
  refine h.simulate fun q hq w hw => ?_
  obtain ⟨-, ⟨b, hb, hp, -⟩, -⟩ := mem_eliminateUnits.1 hq
  exact derives_of_unitSteps hb (derives_single_iff.2 ⟨_, hp, rfl, hw⟩)

variable (start) in
/-- A production that no unit production precedes stays. -/
theorem mem_eliminateUnits_of_mem {p : Production} (hp : p ∈ ps) (hunit : p.isUnit = false)
    (hkeep : p.rhs ≠ [] ∨ p.lhs = start) : p ∈ eliminateUnits ps start := by
  have hnames := (knows_ofProductions start ps p hp).1
  exact mem_eliminateUnits.2 ⟨hnames, ⟨p.lhs, .refl, hp, hunit⟩, hkeep⟩

/-- Elimination keeps what derives without empty productions. -/
theorem derives_nonempty_eliminateUnits {r : List Symbol} {w : List Terminal}
    (h : Derives (nonempty ps) r w) : Derives (nonempty (eliminateUnits ps start)) r w := by
  refine h.simulate fun p hp w hw => ?_
  obtain ⟨hp, hne⟩ := mem_nonempty.1 hp
  cases hunit : p.isUnit with
  | false =>
    have hq := mem_eliminateUnits_of_mem start hp hunit (.inl hne)
    exact derives_single_iff.2 ⟨p, mem_nonempty.2 ⟨hq, hne⟩, rfl, hw⟩
  | true =>
    obtain ⟨b, hb⟩ := Production.isUnit_iff.1 hunit
    obtain ⟨q, hq, rfl, hqw⟩ := derives_single_iff.1 (hb ▸ hw)
    obtain ⟨hq, hqne⟩ := mem_nonempty.1 hq
    obtain ⟨-, ⟨c, hc, hcp, hcunit⟩, -⟩ := mem_eliminateUnits.1 hq
    have hstep : UnitStep ps p.lhs q.lhs := by
      rw [UnitStep, ← hb]
      exact hp
    -- `p` and the unit productions before the origin of `q` make one chain
    have hnew : ⟨p.lhs, q.rhs⟩ ∈ eliminateUnits ps start :=
      mem_eliminateUnits.2 ⟨(knows_ofProductions start ps p hp).1,
        ⟨c, .head hstep hc, hcp, hcunit⟩, .inl hqne⟩
    exact derives_single_iff.2 ⟨_, mem_nonempty.2 ⟨hnew, hqne⟩, rfl, hqw⟩

/-- A unit production is not empty, so that chains of them are left when empty productions are left
out. -/
theorem unitSteps_nonempty {a b : Nonterminal} (h : ReflTransGen (UnitStep ps) a b) :
    ReflTransGen (UnitStep (nonempty ps)) a b := by
  refine ReflTransGen.mono ?_ _ _ h
  intro c d hstep
  exact mem_nonempty.2 ⟨hstep, List.cons_ne_nil _ _⟩

/-- Without empty productions, too, elimination derives nothing new. -/
theorem derives_of_derives_nonempty_eliminateUnits {r : List Symbol} {w : List Terminal}
    (h : Derives (nonempty (eliminateUnits ps start)) r w) : Derives (nonempty ps) r w := by
  refine h.simulate fun q hq w hw => ?_
  obtain ⟨hq, hne⟩ := mem_nonempty.1 hq
  obtain ⟨-, ⟨b, hb, hp, -⟩, -⟩ := mem_eliminateUnits.1 hq
  exact derives_of_unitSteps (unitSteps_nonempty hb)
    (derives_single_iff.2 ⟨_, mem_nonempty.2 ⟨hp, hne⟩, rfl, hw⟩)

/-- The start symbol keeps the empty production when unit productions lead to one. -/
theorem empty_mem_eliminateUnits_iff : ⟨start, []⟩ ∈ eliminateUnits ps start ↔
    ∃ b, ReflTransGen (UnitStep ps) start b ∧ ⟨b, []⟩ ∈ ps := by
  rw [mem_eliminateUnits]
  constructor
  · rintro ⟨-, ⟨b, hb, hp, -⟩, -⟩
    exact ⟨b, hb, hp⟩
  · rintro ⟨b, hb, hp⟩
    exact ⟨mem_names_ofProductions.2 (.inl rfl), ⟨b, hb, hp, rfl⟩, .inr rfl⟩

theorem isUnit_of_mem_eliminateUnits {q : Production} (hq : q ∈ eliminateUnits ps start) :
    q.isUnit = false := by
  obtain ⟨-, ⟨b, -, -, hunit⟩, -⟩ := mem_eliminateUnits.1 hq
  exact hunit

theorem eq_of_mem_eliminateUnits {q : Production} (hq : q ∈ eliminateUnits ps start)
    (hempty : q.rhs = []) : q = ⟨start, []⟩ := by
  obtain ⟨-, -, hne | hlhs⟩ := mem_eliminateUnits.1 hq
  · exact absurd hempty hne
  · cases q
    cases hlhs
    cases hempty
    rfl

/-- **What elimination of unit productions means.**  No unit production is left, none is repeated,
and none is empty but that of the start symbol, which is there exactly when unit productions lead
from the start symbol to an empty one.  The words that have trees without empty productions are the
same for every nonterminal. -/
theorem eliminateUnits_trees (ps : List Production) (start : Nonterminal) :
    (∀ q ∈ eliminateUnits ps start, q.isUnit = false) ∧ (eliminateUnits ps start).Nodup ∧
    (∀ q ∈ eliminateUnits ps start, q.rhs = [] → q = ⟨start, []⟩) ∧
    (⟨start, []⟩ ∈ eliminateUnits ps start ↔
      ∃ b, ReflTransGen (UnitStep ps) start b ∧ ⟨b, []⟩ ∈ ps) ∧
    ∀ a w, (treesOf (nonempty (eliminateUnits ps start)) a w).Nonempty ↔
      (treesOf (nonempty ps) a w).Nonempty := by
  refine ⟨fun q hq => isUnit_of_mem_eliminateUnits hq, nodup_eraseDups _,
    fun q hq hempty => eq_of_mem_eliminateUnits hq hempty, empty_mem_eliminateUnits_iff, ?_⟩
  intro a w
  rw [← Set.nonempty_coe_sort, ← Set.nonempty_coe_sort, nonempty_treesOf_iff, nonempty_treesOf_iff]
  constructor
  · exact derives_of_derives_nonempty_eliminateUnits
  · exact derives_nonempty_eliminateUnits

/-- Unit productions that lead round in a circle, with a way out to the empty word and one to a
letter. -/
def circle : List Production :=
  [⟨⟨"S"⟩, [.nonterminal ⟨"A"⟩]⟩, ⟨⟨"A"⟩, [.nonterminal ⟨"B"⟩]⟩, ⟨⟨"A"⟩, [.terminal ⟨"a"⟩]⟩,
    ⟨⟨"B"⟩, [.nonterminal ⟨"S"⟩]⟩, ⟨⟨"B"⟩, []⟩]

/-- Around the circle the start symbol comes to an empty production, and `B` to a letter. -/
theorem eliminateUnits_trees_circle :
    eliminateUnits circle ⟨"S"⟩ =
        [⟨⟨"S"⟩, [.terminal ⟨"a"⟩]⟩, ⟨⟨"S"⟩, []⟩, ⟨⟨"A"⟩, [.terminal ⟨"a"⟩]⟩,
          ⟨⟨"B"⟩, [.terminal ⟨"a"⟩]⟩] ∧
      ⟨⟨"S"⟩, []⟩ ∈ eliminateUnits circle ⟨"S"⟩ ∧ ⟨⟨"B"⟩, []⟩ ∉ eliminateUnits circle ⟨"S"⟩ ∧
      Production.isUnit ⟨⟨"B"⟩, [.terminal ⟨"a"⟩]⟩ = false ∧
      (treesOf (nonempty (eliminateUnits circle ⟨"S"⟩)) ⟨"B"⟩ [⟨"a"⟩]).Nonempty ∧
      (treesOf (nonempty circle) ⟨"B"⟩ [⟨"a"⟩]).Nonempty := by
  have hleft : eliminateUnits circle ⟨"S"⟩ =
      [⟨⟨"S"⟩, [.terminal ⟨"a"⟩]⟩, ⟨⟨"S"⟩, []⟩, ⟨⟨"A"⟩, [.terminal ⟨"a"⟩]⟩,
        ⟨⟨"B"⟩, [.terminal ⟨"a"⟩]⟩] := by decide +kernel
  obtain ⟨hunit, -, hempty, hstart, htrees⟩ := eliminateUnits_trees circle ⟨"S"⟩
  have hSA : UnitStep circle ⟨"S"⟩ ⟨"A"⟩ := by
    unfold UnitStep
    decide
  have hAB : UnitStep circle ⟨"A"⟩ ⟨"B"⟩ := by
    unfold UnitStep
    decide
  have hB : ⟨⟨"B"⟩, [.terminal ⟨"a"⟩]⟩ ∈ eliminateUnits circle ⟨"S"⟩ := by
    rw [hleft]
    decide
  have htree : (treesOf (nonempty (eliminateUnits circle ⟨"S"⟩)) ⟨"B"⟩ [⟨"a"⟩]).Nonempty := by
    refine ⟨.rule ⟨⟨"B"⟩, [.terminal ⟨"a"⟩]⟩ (.terminal ⟨"a"⟩ .nil) .nil, ?_, rfl, rfl⟩
    exact ⟨mem_nonempty.2 ⟨hB, List.cons_ne_nil _ _⟩, rfl, trivial, trivial⟩
  refine ⟨hleft, hstart.2 ⟨⟨"B"⟩, .tail (.single hSA) hAB, by decide⟩, ?_, hunit _ hB, htree,
    (htrees _ _).1 htree⟩
  intro hother
  exact absurd (hempty _ hother rfl) (by decide)

end GrammarSampler
