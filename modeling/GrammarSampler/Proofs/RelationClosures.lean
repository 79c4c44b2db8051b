import Mathlib.Data.List.Basic
import Mathlib.Logic.Relation
import GrammarSampler.Analysis.Relations
import GrammarSampler.Proofs.Closures

/-!
# What the closures of a relation relate

`IdRelation.transitive` takes one step for every pivot, in place.  After the pivots below `k` the
relation is contained in the transitive closure (`transGen_of_has_pivots`) and is transitive through
each of these pivots (`has_pivots_trans`).  No id from the size on relates to anything, so that in
the end the relation is transitive altogether: it is the transitive closure
(`has_transitive_iff`).

For a relation that links the ids of pairs of nonterminals, the reflexive and transitive closure
relates the ids of those that are linked by a chain (`has_relation_closure_iff`).
-/

namespace GrammarSampler

open Relation

namespace IdRelation

/-! ### Pivots -/

/-- The relation after the pivots below `k`. -/
def pivots (r : IdRelation) (k : Nat) : IdRelation := (List.range k).foldl throughPivot r

theorem pivots_succ (r : IdRelation) (k : Nat) :
    r.pivots (k + 1) = (r.pivots k).throughPivot k := by
  simp [pivots, List.range_succ]

theorem has_pivots_succ (r : IdRelation) (k i j : Nat) :
    (r.pivots (k + 1)).has i j = true ↔ (r.pivots k).has i j = true ∨
      (r.pivots k).has i k = true ∧ (r.pivots k).has k j = true := by
  rw [pivots_succ, has_throughPivot, Bool.or_eq_true, Bool.and_eq_true]

theorem has_pivots_of_has {r : IdRelation} {k i j : Nat} (h : r.has i j = true) :
    (r.pivots k).has i j = true := by
  induction k with
  | zero => exact h
  | succ k ih => exact (has_pivots_succ r k i j).2 (.inl ih)

theorem transGen_of_has_pivots {r : IdRelation} {k i j : Nat} (h : (r.pivots k).has i j = true) :
    TransGen (fun i j => r.has i j = true) i j := by
  induction k generalizing i j with
  | zero => exact .single h
  | succ k ih =>
    rcases (has_pivots_succ r k i j).1 h with h | ⟨hik, hkj⟩
    · exact ih h
    · exact (ih hik).trans (ih hkj)

/-- The invariant of the pivots: the relation is transitive through each of them. -/
theorem has_pivots_trans {r : IdRelation} {k p i j : Nat} (hp : p < k)
    (hip : (r.pivots k).has i p = true) (hpj : (r.pivots k).has p j = true) :
    (r.pivots k).has i j = true := by
  induction k generalizing p i j with
  | zero => omega
  | succ k ih =>
    rw [has_pivots_succ] at hip hpj ⊢
    rcases Nat.lt_succ_iff_lt_or_eq.1 hp with hp | rfl
    · rcases hip with hip | ⟨hik, hkp⟩
      · rcases hpj with hpj | ⟨hpk, hkj⟩
        · exact .inl (ih hp hip hpj)
        · exact .inr ⟨ih hp hip hpk, hkj⟩
      · rcases hpj with hpj | ⟨hpk, hkj⟩
        · exact .inr ⟨hik, ih hp hkp hpj⟩
        · exact .inr ⟨hik, hkj⟩
    · have hip : (r.pivots p).has i p = true := hip.elim id And.left
      have hpj : (r.pivots p).has p j = true := hpj.elim id And.right
      exact .inr ⟨hip, hpj⟩

theorem lt_size_of_has {r : IdRelation} {i j : Nat} (h : r.has i j = true) : i < r.size := by
  refine Nat.lt_of_not_le fun hle => ?_
  have hrow : r.rows.getD i 0 = 0 := by
    rw [Array.getD_eq_getD_getElem?, Array.getElem?_eq_none hle]
    rfl
  simp [has, hrow] at h

theorem size_pivots (r : IdRelation) (k : Nat) : (r.pivots k).size = r.size := by
  induction k with
  | zero => rfl
  | succ k ih => rw [pivots_succ, size_throughPivot, ih]

/-- **The steps for all pivots make the transitive closure.** -/
theorem has_transitive_iff {r : IdRelation} {i j : Nat} :
    r.transitive.has i j = true ↔ TransGen (fun i j => r.has i j = true) i j := by
  show (r.pivots r.size).has i j = true ↔ _
  constructor
  · exact transGen_of_has_pivots
  · intro h
    induction h with
    | single h => exact has_pivots_of_has h
    | tail _ h ih => exact has_pivots_trans (lt_size_of_has h) ih (has_pivots_of_has h)

theorem has_foldl_insert_self {r : IdRelation} {is : List Nat} {i j : Nat} :
    (is.foldl (fun r i => r.insert i i) r).has i j = true ↔
      r.has i j = true ∨ i = j ∧ i ∈ is ∧ i < r.size := by
  induction is generalizing r with
  | nil => simp
  | cons k is ih =>
    rw [List.foldl_cons, ih, has_insert, size_insert, Bool.or_eq_true, decide_eq_true_eq, or_assoc,
      List.mem_cons]
    refine or_congr_right ⟨?_, ?_⟩
    · rintro (⟨rfl, rfl, hk⟩ | ⟨rfl, hi, hlt⟩)
      · exact ⟨rfl, .inl rfl, hk⟩
      · exact ⟨rfl, .inr hi, hlt⟩
    · rintro ⟨rfl, rfl | hi, hlt⟩
      · exact .inl ⟨rfl, rfl, hlt⟩
      · exact .inr ⟨rfl, hi, hlt⟩

theorem size_foldl_insert_self {r : IdRelation} {is : List Nat} :
    (is.foldl (fun r i => r.insert i i) r).size = r.size := by
  induction is generalizing r with
  | nil => rfl
  | cons i is ih => rw [List.foldl_cons, ih, size_insert]

theorem has_reflexive_iff {r : IdRelation} {i j : Nat} :
    r.reflexive.has i j = true ↔ r.has i j = true ∨ i = j ∧ i < r.size := by
  rw [reflexive, has_foldl_insert_self, List.mem_range, and_self]

end IdRelation

/-! ### Links between nonterminals -/

/-- Two nonterminals with ids are linked by one of the pairs. -/
def Numbering.Links (x : Numbering) (pairs : List (Nonterminal × Nonterminal))
    (a b : Nonterminal) : Prop :=
  (a, b) ∈ pairs ∧ a ∈ x.names ∧ b ∈ x.names

variable {x : Numbering} {pairs : List (Nonterminal × Nonterminal)}

/-- Relates the ids of one pair. -/
def Numbering.link (x : Numbering) (r : IdRelation) (ab : Nonterminal × Nonterminal) : IdRelation :=
  match x.id? ab.1, x.id? ab.2 with
  | some i, some j => r.insert i j
  | _, _ => r

theorem relation_eq_foldl :
    x.relation pairs = pairs.foldl x.link (IdRelation.empty x.size) := rfl

theorem size_link (r : IdRelation) (ab : Nonterminal × Nonterminal) :
    (x.link r ab).size = r.size := by
  unfold Numbering.link
  split
  · exact IdRelation.size_insert ..
  · rfl

theorem has_link_iff {r : IdRelation} {ab : Nonterminal × Nonterminal} {i j : Nat}
    (hr : r.size = x.size) : (x.link r ab).has i j = true ↔
      r.has i j = true ∨ x.id? ab.1 = some i ∧ x.id? ab.2 = some j := by
  unfold Numbering.link
  split
  · next k l hk hl =>
    have hlt : k < r.size := hr ▸ Numbering.lt_size_of_id? hk
    rw [IdRelation.has_insert, Bool.or_eq_true, decide_eq_true_eq, hk, hl, Option.some_inj,
      Option.some_inj]
    exact or_congr_right ⟨fun h => ⟨h.1, h.2.1⟩, fun h => ⟨h.1, h.2, h.1 ▸ hlt⟩⟩
  · next hnone => exact ⟨.inl, fun h => h.resolve_right fun ⟨hi, hj⟩ => hnone _ _ hi hj⟩

theorem size_foldl_link {r : IdRelation} : (pairs.foldl x.link r).size = r.size := by
  induction pairs generalizing r with
  | nil => rfl
  | cons ab pairs ih => rw [List.foldl_cons, ih, size_link]

theorem has_foldl_link_iff {r : IdRelation} {i j : Nat} (hr : r.size = x.size) :
    (pairs.foldl x.link r).has i j = true ↔
      r.has i j = true ∨ ∃ ab ∈ pairs, x.id? ab.1 = some i ∧ x.id? ab.2 = some j := by
  induction pairs generalizing r with
  | nil => simp
  | cons ab pairs ih =>
    rw [List.foldl_cons, ih (by rw [size_link, hr]), has_link_iff hr, or_assoc,
      List.exists_mem_cons_iff]

theorem has_relation_iff {i j : Nat} : (x.relation pairs).has i j = true ↔
    ∃ ab ∈ pairs, x.id? ab.1 = some i ∧ x.id? ab.2 = some j := by
  rw [relation_eq_foldl, has_foldl_link_iff (IdRelation.size_empty _), IdRelation.has_empty]
  simp

/-- A chain of ids is a chain of their nonterminals. -/
theorem transGen_relation_iff {a b : Nonterminal} {i j : Nat} (ha : x.id? a = some i)
    (hb : x.id? b = some j) :
    TransGen (fun i j => (x.relation pairs).has i j = true) i j ↔
      TransGen (x.Links pairs) a b := by
  have hmem : ∀ {c k}, x.id? c = some k → c ∈ x.names := fun hc =>
    List.mem_of_getElem? (Numbering.id?_eq_some_iff.1 hc)
  have hlink : ∀ {c d k l}, x.id? c = some k → x.id? d = some l →
      ((x.relation pairs).has k l = true ↔ x.Links pairs c d) := by
    intro c d k l hc hd
    rw [has_relation_iff]
    constructor
    · rintro ⟨⟨c', d'⟩, hcd, hc', hd'⟩
      obtain rfl := id?_inj hc' hc
      obtain rfl := id?_inj hd' hd
      exact ⟨hcd, hmem hc, hmem hd⟩
    · exact fun h => ⟨(c, d), h.1, hc, hd⟩
  constructor
  · intro h
    induction h generalizing b with
    | single h => exact .single ((hlink ha hb).1 h)
    | tail _ h ih =>
      obtain ⟨⟨c, d⟩, -, hc, -⟩ := has_relation_iff.1 h
      exact (ih hc).tail ((hlink hc hb).1 h)
  · intro h
    induction h generalizing j with
    | single h => exact .single ((hlink ha hb).2 h)
    | tail _ h ih =>
      obtain ⟨k, hk⟩ := exists_id?_of_mem_names h.2.1
      exact (ih hk).tail ((hlink hk hb).2 h)

theorem size_transitive_relation : (x.relation pairs).transitive.size = x.size := by
  show ((x.relation pairs).pivots _).size = _
  rw [IdRelation.size_pivots, relation_eq_foldl, size_foldl_link, IdRelation.size_empty]

theorem size_relation_closure : (x.relation pairs).transitive.reflexive.size = x.size := by
  rw [IdRelation.reflexive, IdRelation.size_foldl_insert_self, size_transitive_relation]

/-- **The closure of a relation between nonterminals** relates those that a chain links. -/
theorem has_relation_closure_iff {a b : Nonterminal} {i j : Nat} (ha : x.id? a = some i)
    (hb : x.id? b = some j) :
    (x.relation pairs).transitive.reflexive.has i j = true ↔ ReflTransGen (x.Links pairs) a b := by
  have hlt : i < x.size := Numbering.lt_size_of_id? ha
  have heq : i = j ↔ b = a := by
    constructor
    · rintro rfl
      exact id?_inj hb ha
    · rintro rfl
      exact Option.some.inj (ha.symm.trans hb)
  rw [IdRelation.has_reflexive_iff, IdRelation.has_transitive_iff, transGen_relation_iff ha hb,
    size_transitive_relation, reflTransGen_iff_eq_or_transGen, heq, or_comm]
  simp [hlt]

end GrammarSampler
