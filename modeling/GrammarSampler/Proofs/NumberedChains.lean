import GrammarSampler.Proofs.UnitElimination

/-!
# Relations of ids as chains of productions

The two relations between nonterminals that the normal form reads are closures of links: of the unit
productions, and of the occurrences on right-hand sides.  A numbering need not know all nonterminals
of the productions; what it does not know is in no link, and no chain leads through it.  For the ids
of a numbering both relations hold exactly where a chain leads, and every row lists the ends of the
chains in order of ids (`closes_unitDerivation_reachability`).
-/

namespace GrammarSampler

open Relation

variable {x : Numbering} {ps : List Production}

/-! ### Rows -/

namespace IdRelation

theorem pairwise_row (r : IdRelation) (i : Nat) : (r.row i).Pairwise (· < ·) :=
  List.pairwise_lt_range.filter _

theorem mem_row_iff {r : IdRelation} {i j : Nat} : j ∈ r.row i ↔ j < r.size ∧ r.has i j = true := by
  rw [row, List.mem_filter, List.mem_range]

/-- **The relation `r` is the closure of `link`** for the ids of `x`.  At the ids of `a` and `b` it
holds exactly if `a` is `b` or one link or more lead from `a` to `b`.  The row of `a` lists the ids
of all such `b` in increasing order.  No access fails. -/
structure Closes (r : IdRelation) (x : Numbering) (link : Nonterminal → Nonterminal → Prop) :
    Prop where
  holds : ∀ a b i j, x.id? a = some i → x.id? b = some j →
    ∃ related, r.has? i j = some related ∧ (related = true ↔ a = b ∨ TransGen link a b)
  lists : ∀ a i, x.id? a = some i → ∃ row, r.row? i = some row ∧ row.Pairwise (· < ·) ∧
    ∀ j, j ∈ row ↔ ∃ b, x.id? b = some j ∧ (a = b ∨ TransGen link a b)

end IdRelation

/-- **The closure of any relation between nonterminals**, on the ids of a numbering. -/
theorem closes_relation_closure (pairs : List (Nonterminal × Nonterminal)) :
    (x.relation pairs).transitive.reflexive.Closes x (x.Links pairs) := by
  have hsize : (x.relation pairs).transitive.reflexive.size = x.size := size_relation_closure
  have hchain {a b : Nonterminal} {i j : Nat} (ha : x.id? a = some i) (hb : x.id? b = some j) :
      (x.relation pairs).transitive.reflexive.has i j = true ↔
        a = b ∨ TransGen (x.Links pairs) a b := by
    rw [has_relation_closure_iff ha hb, reflTransGen_iff_eq_or_transGen, eq_comm]
  constructor
  · intro a b i j ha hb
    have hi : i < (x.relation pairs).transitive.reflexive.size :=
      hsize ▸ Numbering.lt_size_of_id? ha
    have hj : j < (x.relation pairs).transitive.reflexive.size :=
      hsize ▸ Numbering.lt_size_of_id? hb
    refine ⟨_, ?_, hchain ha hb⟩
    rw [IdRelation.has?, IdRelation.cell?_eq_some hi hj, Option.map_some]
  · intro a i ha
    have hi : i < (x.relation pairs).transitive.reflexive.size :=
      hsize ▸ Numbering.lt_size_of_id? ha
    refine ⟨_, if_pos (.inl hi), IdRelation.pairwise_row _ i, fun j => ?_⟩
    rw [IdRelation.mem_row_iff, hsize]
    constructor
    · rintro ⟨hj, hhas⟩
      have hb : x.id? x.names[j] = some j :=
        Numbering.id?_eq_some_iff.2 (List.getElem?_eq_getElem hj)
      exact ⟨x.names[j], hb, (hchain ha hb).1 hhas⟩
    · rintro ⟨b, hb, hab⟩
      exact ⟨Numbering.lt_size_of_id? hb, (hchain ha hb).2 hab⟩

/-! ### Chains of productions -/

/-- A unit production rewrites `a` to `b`, and both have ids. -/
def Numbering.UnitLink (x : Numbering) (ps : List Production) (a b : Nonterminal) : Prop :=
  ⟨a, [.nonterminal b]⟩ ∈ ps ∧ a ∈ x.names ∧ b ∈ x.names

/-- `b` stands on the right-hand side of a production of `a`, and both have ids. -/
def Numbering.UseLink (x : Numbering) (ps : List Production) (a b : Nonterminal) : Prop :=
  (∃ p ∈ ps, p.lhs = a ∧ .nonterminal b ∈ p.rhs) ∧ a ∈ x.names ∧ b ∈ x.names

theorem links_units : x.Links ((ps.filter Production.isUnit).flatMap Production.uses) =
    x.UnitLink ps := by
  ext a b
  rw [Numbering.Links, mem_unit_uses_iff, UnitStep, Numbering.UnitLink]

theorem links_uses : x.Links (ps.flatMap Production.uses) = x.UseLink ps := by
  ext a b
  rw [Numbering.Links, Numbering.UseLink]
  refine and_congr_left fun _ => ?_
  simp only [List.mem_flatMap, Production.uses, List.mem_map, Production.mem_nonterminals,
    Prod.mk.injEq]
  constructor
  · rintro ⟨p, hp, c, hc, rfl, rfl⟩
    exact ⟨p, hp, rfl, hc⟩
  · rintro ⟨p, hp, rfl, hb⟩
    exact ⟨p, hp, b, hb, rfl, rfl⟩

/-- **Unit derivation and reachability are exact**, for every numbering and for productions that may
hold nonterminals without ids: they are the closures of the unit productions, and of the occurrences
on right-hand sides, between nonterminals with ids. -/
theorem closes_unitDerivation_reachability (x : Numbering) (ps : List Production) :
    (unitDerivation x ps).Closes x (x.UnitLink ps) ∧
      (reachability x ps).Closes x (x.UseLink ps) := by
  constructor
  · rw [← links_units]
    exact closes_relation_closure _
  · rw [← links_uses]
    exact closes_relation_closure _

/-- A chain of units, one nonterminal of which is to have no id. -/
def bypassed : List Production :=
  [⟨⟨"S"⟩, [.nonterminal ⟨"A"⟩]⟩, ⟨⟨"A"⟩, [.nonterminal ⟨"B"⟩]⟩,
    ⟨⟨"B"⟩, [.nonterminal ⟨"C"⟩]⟩, ⟨⟨"A"⟩, [.nonterminal ⟨"C"⟩, .terminal ⟨"x"⟩]⟩]

/-- Without an id for `B`, no chain of units leads from `S` to `C`, but a chain of occurrences goes
round `B`. -/
theorem closes_unitDerivation_reachability_bypassed :
    let x := Numbering.empty.insertAll [⟨"S"⟩, ⟨"A"⟩, ⟨"C"⟩]
    TransGen (UnitStep bypassed) ⟨"S"⟩ ⟨"C"⟩ ∧ ¬TransGen (x.UnitLink bypassed) ⟨"S"⟩ ⟨"C"⟩ ∧
      TransGen (x.UseLink bypassed) ⟨"S"⟩ ⟨"C"⟩ ∧
      (unitDerivation x bypassed).row? 0 = some [0, 1] ∧
      (reachability x bypassed).row? 0 = some [0, 1, 2] := by
  intro x
  obtain ⟨hunits, huses⟩ := closes_unitDerivation_reachability x bypassed
  obtain ⟨related, hrelated, hunit⟩ := hunits.holds ⟨"S"⟩ ⟨"C"⟩ 0 2 (by decide) (by decide)
  obtain ⟨related', hrelated', huse⟩ := huses.holds ⟨"S"⟩ ⟨"C"⟩ 0 2 (by decide) (by decide)
  have hfalse : (unitDerivation x bypassed).has? 0 2 = some false := by decide +kernel
  have htrue : (reachability x bypassed).has? 0 2 = some true := by decide +kernel
  rw [hfalse] at hrelated
  rw [htrue] at hrelated'
  have hSA : UnitStep bypassed ⟨"S"⟩ ⟨"A"⟩ := by simp [UnitStep, bypassed]
  have hAB : UnitStep bypassed ⟨"A"⟩ ⟨"B"⟩ := by simp [UnitStep, bypassed]
  have hBC : UnitStep bypassed ⟨"B"⟩ ⟨"C"⟩ := by simp [UnitStep, bypassed]
  refine ⟨((TransGen.single hSA).tail hAB).tail hBC, ?_, ?_, by decide +kernel, by decide +kernel⟩
  · intro hchain
    have hrel := hunit.2 (.inr hchain)
    cases hrelated
    cases hrel
  · cases hrelated'
    exact (huse.1 rfl).resolve_left (by decide)

end GrammarSampler
