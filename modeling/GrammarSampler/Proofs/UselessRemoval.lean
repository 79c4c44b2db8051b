import GrammarSampler.NormalForm.Useful
import GrammarSampler.Proofs.RelationClosures

/-!
# Removal of useless productions keeps the language

`removeUseless ps start` keeps the productions all of whose nonterminals derive some word, if their
left-hand side is reached from the start symbol through such productions
(`removeUseless_eq_filter`).  Every derivation from a reached nonterminal applies only such
productions (`derives_of_reached`), and each nonterminal of what is kept has a production that is
kept (`exists_lhs_mem_removeUseless`), derives a word by such productions and is reached through
them (`useful_of_mem_removeUseless`).  So removal keeps the language, what it keeps makes a grammar,
and a second removal changes nothing (`removeUseless_useful`).
-/

namespace GrammarSampler

open Relation

variable {ps : List Production} {start : Nonterminal}

/-- Every nonterminal of the production derives some word. -/
def IsProductive (ps : List Production) (p : Production) : Prop :=
  ∀ a ∈ p.lhs :: p.nonterminals, ∃ w, Derives ps [.nonterminal a] w

/-- `b` stands on a right-hand side of `a` in a production of which all nonterminals derive some
word. -/
def UsesProductively (ps : List Production) (a b : Nonterminal) : Prop :=
  ∃ p ∈ ps, IsProductive ps p ∧ p.lhs = a ∧ b ∈ p.nonterminals

/-! ### Numbering -/

theorem prefix_names_insertAll (x : Numbering) (as : List Nonterminal) :
    x.names <+: (x.insertAll as).names := by
  induction as generalizing x with
  | nil => exact List.prefix_rfl
  | cons a as ih =>
    have hone : x.names <+: (x.insert a).names := by
      rw [Numbering.names_insert]
      split
      · exact List.prefix_rfl
      · exact List.prefix_append ..
    exact hone.trans (ih (x.insert a))

theorem id?_start : (Numbering.ofProductions start ps).id? start = some 0 := by
  have hpre := prefix_names_insertAll (Numbering.empty.insert start) (nonterminalsOf ps)
  have hone : (Numbering.empty.insert start).names = [start] := by
    simp [Numbering.names_insert, Numbering.empty]
  rw [hone] at hpre
  obtain ⟨rest, hrest⟩ := hpre
  rw [Numbering.id?_eq_some_iff]
  show ((Numbering.empty.insert start).insertAll (nonterminalsOf ps)).names[0]? = some start
  rw [← hrest]
  rfl

/-! ### The productions after removal -/

/-- The productions that are left before those are removed that cannot be reached. -/
def productiveRules (ps : List Production) (start : Nonterminal) : List Production :=
  withinSet (Numbering.ofProductions start ps)
    (productiveSet (Numbering.ofProductions start ps) ps) ps

theorem all_productiveSet_iff {p : Production} (hp : p ∈ ps) :
    ((p.lhs :: p.nonterminals).all fun a => ((Numbering.ofProductions start ps).id? a).any
      (productiveSet (Numbering.ofProductions start ps) ps).has) = true ↔ IsProductive ps p := by
  have hx := knows_ofProductions start ps
  rw [List.all_eq_true]
  refine forall₂_congr fun a ha => ?_
  have hnames : a ∈ (Numbering.ofProductions start ps).names := by
    rcases List.mem_cons.1 ha with rfl | ha
    · exact (hx p hp).1
    · exact (hx p hp).2 a ha
  obtain ⟨i, hi⟩ := exists_id?_of_mem_names hnames
  rw [hi]
  exact has_productiveSet_iff hx hi

theorem mem_productiveRules_iff {p : Production} :
    p ∈ productiveRules ps start ↔ p ∈ ps ∧ IsProductive ps p := by
  rw [productiveRules, withinSet, List.mem_filter]
  exact and_congr_right all_productiveSet_iff

theorem mem_productive_uses_iff {a b : Nonterminal} :
    (a, b) ∈ (productiveRules ps start).flatMap Production.uses ↔ UsesProductively ps a b := by
  simp only [List.mem_flatMap, mem_productiveRules_iff, Production.uses, List.mem_map,
    Prod.mk.injEq, UsesProductively]
  constructor
  · rintro ⟨p, ⟨hp, hprod⟩, c, hc, rfl, rfl⟩
    exact ⟨p, hp, hprod, rfl, hc⟩
  · rintro ⟨p, hp, hprod, rfl, hb⟩
    exact ⟨p, ⟨hp, hprod⟩, b, hb, rfl, rfl⟩

theorem links_productive_uses :
    (Numbering.ofProductions start ps).Links ((productiveRules ps start).flatMap Production.uses) =
      UsesProductively ps := by
  have hx := knows_ofProductions start ps
  ext a b
  rw [Numbering.Links, mem_productive_uses_iff]
  refine and_iff_left_of_imp ?_
  rintro ⟨p, hp, -, rfl, hb⟩
  exact ⟨(hx p hp).1, (hx p hp).2 b hb⟩

/-- A productive production is kept when its left-hand side is reached. -/
theorem has_reachability_lhs_iff {p : Production} (hp : p ∈ ps) :
    (((Numbering.ofProductions start ps).id? p.lhs).any fun i =>
      (reachability (Numbering.ofProductions start ps) (productiveRules ps start)).has 0 i) = true ↔
    ReflTransGen (UsesProductively ps) start p.lhs := by
  obtain ⟨i, hi⟩ := exists_id?_of_mem_names (knows_ofProductions start ps p hp).1
  rw [hi]
  show (reachability _ _).has 0 i = true ↔ _
  rw [reachability, directRelation, has_relation_closure_iff id?_start hi, links_productive_uses]

open Classical in
/-- Removal is one pass over the productions that keeps those that are useful. -/
theorem removeUseless_eq_filter (ps : List Production) (start : Nonterminal) :
    removeUseless ps start = ps.filter fun p =>
      decide (IsProductive ps p ∧ ReflTransGen (UsesProductively ps) start p.lhs) := by
  show (productiveRules ps start).filter _ = _
  rw [productiveRules, withinSet, List.filter_filter]
  refine List.filter_congr fun p hp => ?_
  rw [Bool.eq_iff_iff, Bool.and_eq_true, decide_eq_true_iff, and_comm]
  exact and_congr (all_productiveSet_iff hp) (has_reachability_lhs_iff hp)

theorem mem_removeUseless_iff {p : Production} : p ∈ removeUseless ps start ↔
    p ∈ ps ∧ IsProductive ps p ∧ ReflTransGen (UsesProductively ps) start p.lhs := by
  classical
  rw [removeUseless_eq_filter, List.mem_filter, decide_eq_true_iff]

/-! ### The language -/

/-- The nonterminals of a list of symbols that derives a word derive words. -/
theorem exists_derives_of_mem {r : List Symbol} {w : List Terminal} (h : Derives ps r w) :
    ∀ a, .nonterminal a ∈ r → ∃ v, Derives ps [.nonterminal a] v := by
  induction h with
  | nil => exact fun _ ha => absurd ha List.not_mem_nil
  | terminal _ ih => exact fun a ha => ih a (by simpa using ha)
  | rule hp hu _ _ ihv =>
    intro a ha
    rcases List.mem_cons.1 ha with ha | ha
    · cases ha
      exact ⟨_, derives_single_iff.2 ⟨_, hp, rfl, hu⟩⟩
    · exact ihv a ha

theorem isProductive_of_derives {p : Production} {w : List Terminal} (hp : p ∈ ps)
    (hw : Derives ps p.rhs w) : IsProductive ps p := by
  intro a ha
  rcases List.mem_cons.1 ha with rfl | ha
  · exact ⟨w, derives_single_iff.2 ⟨p, hp, rfl, hw⟩⟩
  · exact exists_derives_of_mem hw a (Production.mem_nonterminals.1 ha)

/-- A derivation by some of the productions, from symbols that are reached, applies only productions
that are kept. -/
theorem derives_of_reached {qs ts : List Production} (hqs : ∀ p ∈ qs, p ∈ ps)
    (hts : ∀ p ∈ qs, p ∈ removeUseless ps start → p ∈ ts) {r : List Symbol} {w : List Terminal}
    (h : Derives qs r w)
    (hr : ∀ a, .nonterminal a ∈ r → ReflTransGen (UsesProductively ps) start a) :
    Derives ts r w := by
  induction h with
  | nil => exact .nil
  | terminal _ ih => exact .terminal (ih fun a ha => hr a (List.mem_cons_of_mem _ ha))
  | @rule p _ u _ hp hu _ ihu ihv =>
    have hlhs := hr p.lhs List.mem_cons_self
    have hprod := isProductive_of_derives (hqs p hp) (hu.mono hqs)
    have hkept := hts p hp (mem_removeUseless_iff.2 ⟨hqs p hp, hprod, hlhs⟩)
    refine .rule hkept (ihu fun a ha => ?_) (ihv fun a ha => hr a (List.mem_cons_of_mem _ ha))
    exact hlhs.tail ⟨p, hqs p hp, hprod, rfl, Production.mem_nonterminals.2 ha⟩

theorem derives_removeUseless_iff {w : List Terminal} :
    Derives (removeUseless ps start) [.nonterminal start] w ↔
      Derives ps [.nonterminal start] w := by
  constructor
  · exact fun h => h.mono fun p hp => (mem_removeUseless_iff.1 hp).1
  · intro h
    refine derives_of_reached (fun _ hp => hp) (fun _ _ hp => hp) h fun a ha => ?_
    obtain rfl : a = start := by simpa using ha
    exact .refl

/-- Removal keeps the derivations without empty productions as well. -/
theorem derives_nonempty_removeUseless {w : List Terminal}
    (h : Derives (nonempty ps) [.nonterminal start] w) :
    Derives (nonempty (removeUseless ps start)) [.nonterminal start] w := by
  refine derives_of_reached (fun p hp => (mem_nonempty.1 hp).1)
    (fun p hp hkept => mem_nonempty.2 ⟨hkept, (mem_nonempty.1 hp).2⟩) h fun a ha => ?_
  obtain rfl : a = start := by simpa using ha
  exact .refl

/-- Each nonterminal of a production that is kept has such a production itself. -/
theorem exists_lhs_mem_removeUseless {p : Production} (hp : p ∈ removeUseless ps start)
    {a : Nonterminal} (ha : a ∈ p.nonterminals) : ∃ q ∈ removeUseless ps start, q.lhs = a := by
  obtain ⟨hps, hprod, hreach⟩ := mem_removeUseless_iff.1 hp
  obtain ⟨w, hw⟩ := hprod a (List.mem_cons_of_mem _ ha)
  obtain ⟨q, hq, rfl, hqw⟩ := derives_single_iff.1 hw
  have hreach' := hreach.tail ⟨p, hps, hprod, rfl, ha⟩
  exact ⟨q, mem_removeUseless_iff.2 ⟨hq, isProductive_of_derives hq hqw, hreach'⟩, rfl⟩

/-! ### What is kept is useful by itself -/

/-- `b` stands on a right-hand side of `a`. -/
def UsesDirectly (ps : List Production) (a b : Nonterminal) : Prop :=
  ∃ p ∈ ps, p.lhs = a ∧ b ∈ p.nonterminals

theorem usesDirectly_mono {qs : List Production} (h : ∀ p ∈ ps, p ∈ qs) :
    UsesDirectly ps ≤ UsesDirectly qs := by
  rintro a b ⟨p, hp, hlhs, hb⟩
  exact ⟨p, h p hp, hlhs, hb⟩

/-- All nonterminals of a production that is kept were reached. -/
theorem reached_of_mem_removeUseless {p : Production} (hp : p ∈ removeUseless ps start) :
    ∀ a ∈ p.lhs :: p.nonterminals, ReflTransGen (UsesProductively ps) start a := by
  obtain ⟨hps, hprod, hreach⟩ := mem_removeUseless_iff.1 hp
  intro a ha
  rcases List.mem_cons.1 ha with rfl | ha
  · exact hreach
  · exact hreach.tail ⟨p, hps, hprod, rfl, ha⟩

/-- What is reached is reached through productions that are kept. -/
theorem reached_by_removeUseless {a : Nonterminal}
    (h : ReflTransGen (UsesProductively ps) start a) :
    ReflTransGen (UsesDirectly (removeUseless ps start)) start a := by
  induction h with
  | refl => exact .refl
  | tail hreach hstep ih =>
    obtain ⟨p, hp, hprod, rfl, ha⟩ := hstep
    exact ih.tail ⟨p, mem_removeUseless_iff.2 ⟨hp, hprod, hreach⟩, rfl, ha⟩

/-- **The productions that are kept are useful by themselves**: all their nonterminals derive words
and are reached without what was removed. -/
theorem useful_of_mem_removeUseless {p : Production} (hp : p ∈ removeUseless ps start) :
    ∀ a ∈ p.lhs :: p.nonterminals, (∃ w, Derives (removeUseless ps start) [.nonterminal a] w) ∧
      ReflTransGen (UsesDirectly (removeUseless ps start)) start a := by
  intro a ha
  have hreach := reached_of_mem_removeUseless hp a ha
  obtain ⟨w, hw⟩ := (mem_removeUseless_iff.1 hp).2.1 a ha
  refine ⟨⟨w, ?_⟩, reached_by_removeUseless hreach⟩
  apply derives_of_reached (fun _ hp => hp) (fun _ _ hp => hp) hw
  intro b hb
  obtain rfl : b = a := by simpa using hb
  exact hreach

/-- The productions that are kept make a grammar. -/
theorem exists_ofProductions_removeUseless :
    ∃ g, Grammar.ofProductions start (removeUseless ps start) = .ok g := by
  apply Grammar.exists_ofProductions
  intro p hp a ha
  exact exists_lhs_mem_removeUseless hp ha

/-- What is kept is kept again. -/
theorem removeUseless_removeUseless :
    removeUseless (removeUseless ps start) start = removeUseless ps start := by
  classical
  have hprod : ∀ p ∈ removeUseless ps start, IsProductive (removeUseless ps start) p :=
    fun p hp a ha => (useful_of_mem_removeUseless hp a ha).1
  have hsteps : UsesDirectly (removeUseless ps start) ≤
      UsesProductively (removeUseless ps start) := by
    rintro a b ⟨p, hp, hlhs, hb⟩
    exact ⟨p, hp, hprod p hp, hlhs, hb⟩
  rw [removeUseless_eq_filter (removeUseless ps start), List.filter_eq_self]
  intro p hp
  have hreach := (useful_of_mem_removeUseless hp p.lhs List.mem_cons_self).2
  exact decide_eq_true ⟨hprod p hp, ReflTransGen.mono hsteps _ _ hreach⟩

open Classical in
/-- **What removal of useless productions means.**  The productions that are kept, in their order,
are those all of whose nonterminals derive words and whose left-hand side is reached from the start
symbol through such productions.  The start symbol derives the same words as before; by what is kept
alone, each nonterminal that is left derives a word, is reached and has a production, so that the
productions make a grammar; and a second removal changes nothing. -/
theorem removeUseless_useful (ps : List Production) (start : Nonterminal) :
    removeUseless ps start = ps.filter (fun p =>
      decide (IsProductive ps p ∧ ReflTransGen (UsesProductively ps) start p.lhs)) ∧
    (∀ w, Derives (removeUseless ps start) [.nonterminal start] w ↔
      Derives ps [.nonterminal start] w) ∧
    (∀ p ∈ removeUseless ps start, ∀ a ∈ p.lhs :: p.nonterminals,
      (∃ w, Derives (removeUseless ps start) [.nonterminal a] w) ∧
      ReflTransGen (UsesDirectly (removeUseless ps start)) start a ∧
      ∃ q ∈ removeUseless ps start, q.lhs = a) ∧
    (∃ g, Grammar.ofProductions start (removeUseless ps start) = .ok g) ∧
    removeUseless (removeUseless ps start) start = removeUseless ps start := by
  refine ⟨removeUseless_eq_filter ps start, fun w => derives_removeUseless_iff, ?_,
    exists_ofProductions_removeUseless, removeUseless_removeUseless⟩
  intro p hp a ha
  obtain ⟨hderives, hreach⟩ := useful_of_mem_removeUseless hp a ha
  refine ⟨hderives, hreach, ?_⟩
  rcases List.mem_cons.1 ha with rfl | ha
  · exact ⟨p, hp, rfl⟩
  · exact exists_lhs_mem_removeUseless hp ha

/-- A nonterminal that derives nothing, and two that derive a word: one of these is reached only
beside the nonterminal that derives nothing. -/
def deadEnds : List Production :=
  [⟨⟨"S"⟩, [.nonterminal ⟨"S"⟩, .nonterminal ⟨"B"⟩]⟩, ⟨⟨"S"⟩, [.terminal ⟨"a"⟩]⟩,
    ⟨⟨"S"⟩, [.nonterminal ⟨"A"⟩, .nonterminal ⟨"C"⟩]⟩,
    ⟨⟨"A"⟩, [.nonterminal ⟨"A"⟩, .terminal ⟨"x"⟩]⟩,
    ⟨⟨"B"⟩, [.terminal ⟨"b"⟩]⟩, ⟨⟨"C"⟩, [.terminal ⟨"c"⟩]⟩]

/-- `B` is reached and derives a word by what is kept, and has a production there. -/
theorem removeUseless_useful_deadEnds :
    removeUseless deadEnds ⟨"S"⟩ =
        [⟨⟨"S"⟩, [.nonterminal ⟨"S"⟩, .nonterminal ⟨"B"⟩]⟩, ⟨⟨"S"⟩, [.terminal ⟨"a"⟩]⟩,
          ⟨⟨"B"⟩, [.terminal ⟨"b"⟩]⟩] ∧
      (∃ w, Derives (removeUseless deadEnds ⟨"S"⟩) [.nonterminal ⟨"B"⟩] w) ∧
      ReflTransGen (UsesDirectly (removeUseless deadEnds ⟨"S"⟩)) ⟨"S"⟩ ⟨"B"⟩ ∧
      ∃ q ∈ removeUseless deadEnds ⟨"S"⟩, q.lhs = ⟨"B"⟩ := by
  have hkept : removeUseless deadEnds ⟨"S"⟩ =
      [⟨⟨"S"⟩, [.nonterminal ⟨"S"⟩, .nonterminal ⟨"B"⟩]⟩, ⟨⟨"S"⟩, [.terminal ⟨"a"⟩]⟩,
        ⟨⟨"B"⟩, [.terminal ⟨"b"⟩]⟩] := by decide +kernel
  have hmem : ⟨⟨"S"⟩, [.nonterminal ⟨"S"⟩, .nonterminal ⟨"B"⟩]⟩ ∈
      removeUseless deadEnds ⟨"S"⟩ := hkept ▸ List.mem_cons_self
  obtain ⟨-, -, huseful, -⟩ := removeUseless_useful deadEnds ⟨"S"⟩
  exact ⟨hkept, huseful _ hmem ⟨"B"⟩ (by decide)⟩

end GrammarSampler
