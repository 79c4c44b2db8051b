import GrammarSampler.Symbol.Basic

/-!
# Dense numbering of nonterminals

A numbering gives the nonterminals it knows the ids `0, 1, 2, …` in order of first insertion.  It
keeps the id of each nonterminal beside the nonterminals in the order of their ids, and insertion
extends both (`inverse_concat`): an id and its nonterminal determine each other (`id?_eq_some_iff`).
-/

namespace GrammarSampler

/-- Nonterminals with their ids. -/
structure Numbering where
  /-- The id of each nonterminal that has one. -/
  ids : List (Nonterminal × Nat)
  /-- The nonterminals in the order of their ids. -/
  names : List Nonterminal
  inverse : ∀ a i, ids.lookup a = some i ↔ names[i]? = some a

namespace Numbering

/-- The numbering that knows no nonterminal. -/
def empty : Numbering := ⟨[], [], by simp⟩

/-- The number of ids in use. -/
def size (x : Numbering) : Nat := x.names.length

/-- The id of `a`. -/
def id? (x : Numbering) (a : Nonterminal) : Option Nat := x.ids.lookup a

/-- The nonterminal with the id `i`. -/
def get? (x : Numbering) (i : Nat) : Option Nonterminal := x.names[i]?

/-- The id of `a` after its insertion: the one it has, or else the next one. -/
def idFor (x : Numbering) (a : Nonterminal) : Nat := (x.id? a).getD x.size

/-- A nonterminal that has no id gets the next one, and stands last. -/
theorem inverse_concat {ids : List (Nonterminal × Nat)} {names : List Nonterminal}
    (h : ∀ b i, ids.lookup b = some i ↔ names[i]? = some b) {a : Nonterminal}
    (ha : ids.lookup a = none) (b : Nonterminal) (i : Nat) :
    ((a, names.length) :: ids).lookup b = some i ↔ (names ++ [a])[i]? = some b := by
  have hother : names[i]? ≠ some a := fun hi => by simp [(h a i).2 hi] at ha
  by_cases hab : b = a
  · subst hab
    rw [List.lookup_cons_self, List.getElem?_append]
    split
    · next hi => simp [hother, Nat.ne_of_gt hi]
    · next hi => simp [List.getElem?_singleton]; omega
  · rw [List.lookup_cons, beq_false_of_ne hab, h, List.getElem?_append]
    split
    · rfl
    · next hi => simp [List.getElem?_eq_none (Nat.le_of_not_lt hi), List.getElem?_singleton,
        Ne.symm hab]

/-- Gives `a` the next id, if it has none. -/
def insert (x : Numbering) (a : Nonterminal) : Numbering :=
  match h : x.id? a with
  | some _ => x
  | none => ⟨(a, x.size) :: x.ids, x.names ++ [a], inverse_concat x.inverse h⟩

/-- Inserts the members of `as` in turn. -/
def insertAll (x : Numbering) (as : List Nonterminal) : Numbering := as.foldl insert x

/-- The pairs of an id and its nonterminal, in order of ids. -/
def toList (x : Numbering) : List (Nat × Nonterminal) :=
  x.names.zipIdx.map fun p => (p.2, p.1)

theorem id?_eq_some_iff {x : Numbering} {a : Nonterminal} {i : Nat} :
    x.id? a = some i ↔ x.get? i = some a :=
  x.inverse a i

theorem id?_eq_none_iff {x : Numbering} {a : Nonterminal} : x.id? a = none ↔ a ∉ x.names := by
  rw [Option.eq_none_iff_forall_ne_some, List.mem_iff_getElem?, not_exists]
  exact forall_congr' fun i => not_congr id?_eq_some_iff

theorem lt_size_of_id? {x : Numbering} {a : Nonterminal} {i : Nat} (h : x.id? a = some i) :
    i < x.size :=
  (List.getElem?_eq_some_iff.1 (id?_eq_some_iff.1 h)).1

/-- No nonterminal has two ids. -/
theorem nodup (x : Numbering) : x.names.Nodup := by
  rw [List.nodup_iff_pairwise_ne, List.pairwise_iff_getElem]
  intro i j hi hj hij he
  have hi : x.id? x.names[i] = some i := id?_eq_some_iff.2 (List.getElem?_eq_getElem hi)
  have hj : x.id? x.names[j] = some j := id?_eq_some_iff.2 (List.getElem?_eq_getElem hj)
  rw [he, hj, Option.some_inj] at hi
  omega

theorem names_insert (x : Numbering) (a : Nonterminal) :
    (x.insert a).names = if a ∈ x.names then x.names else x.names ++ [a] := by
  unfold insert
  split
  · next i h => rw [if_pos (List.mem_of_getElem? (id?_eq_some_iff.1 h))]
  · next h => rw [if_neg (id?_eq_none_iff.1 h)]

theorem mem_names_insert {x : Numbering} {a b : Nonterminal} :
    b ∈ (x.insert a).names ↔ b ∈ x.names ∨ b = a := by
  rw [names_insert]
  split
  · next h => exact ⟨.inl, fun hb => hb.elim id (· ▸ h)⟩
  · simp

theorem mem_names_insertAll {x : Numbering} {as : List Nonterminal} {b : Nonterminal} :
    b ∈ (x.insertAll as).names ↔ b ∈ x.names ∨ b ∈ as := by
  induction as generalizing x with
  | nil => simp [insertAll]
  | cons a as ih =>
    have h : b ∈ ((x.insert a).insertAll as).names ↔ _ := ih
    rw [mem_names_insert, or_assoc, ← List.mem_cons] at h
    exact h

end Numbering

end GrammarSampler
