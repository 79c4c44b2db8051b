import Mathlib.Algebra.BigOperators.Group.Finset.Powerset
import Mathlib.Algebra.Order.BigOperators.Group.Multiset
import Mathlib.Data.List.Induction
import GrammarSampler.Proofs.EmptyElimination

/-!
# One variant for each set of places

The variants of a right-hand side are built symbol by symbol, and their number doubles at every
nullable occurrence.  After each symbol there is one of them for each set of nullable places so far
(`variants_eq_map_powerset`): a new place is in half of the sets, and there the symbol is left out.
It is sets of places, not of symbols, so that one nonterminal may be kept here and left out there.

So `eliminateEmpty` has the productions that arise when the symbols at some nullable places are left
out, each once; that is `eliminateEmpty_variants`.
-/

namespace GrammarSampler

/-! ### Leaving out places -/

/-- The symbols of a right-hand side in order, but for those at the places in `s`. -/
def leavingOut (s : Finset Nat) (rhs : List Symbol) : List Symbol :=
  (rhs.zipIdx.filter fun xi => xi.2 ∉ s).map Prod.fst

theorem leavingOut_concat (s : Finset Nat) (rhs : List Symbol) (x : Symbol) :
    leavingOut s (rhs ++ [x]) = leavingOut s rhs ++ if rhs.length ∈ s then [] else [x] := by
  rw [leavingOut, List.zipIdx_append, List.filter_append, List.map_append, leavingOut]
  by_cases h : rhs.length ∈ s
  · simp [h]
  · simp [h]

/-- There is no symbol at the place after the last one. -/
theorem leavingOut_insert_length (s : Finset Nat) (rhs : List Symbol) :
    leavingOut (insert rhs.length s) rhs = leavingOut s rhs := by
  rw [leavingOut, leavingOut]
  congr 1
  refine List.filter_congr fun xi hxi => ?_
  have hlt : xi.2 < rhs.length := by
    have hle := List.snd_lt_of_mem_zipIdx hxi
    omega
  have hne : xi.2 ≠ rhs.length := by omega
  simp [hne]

open Classical in
/-- The places on a right-hand side of the nonterminals that derive the empty word. -/
noncomputable def nullablePlaces (ps : List Production) (rhs : List Symbol) : Finset Nat :=
  (Finset.range rhs.length).filter fun i =>
    ∃ a, rhs[i]? = some (.nonterminal a) ∧ Derives ps [.nonterminal a] []

variable {ps : List Production} {start : Nonterminal}

theorem mem_nullablePlaces {rhs : List Symbol} {i : Nat} : i ∈ nullablePlaces ps rhs ↔
    ∃ a, rhs[i]? = some (.nonterminal a) ∧ Derives ps [.nonterminal a] [] := by
  classical
  rw [nullablePlaces, Finset.mem_filter, Finset.mem_range, and_iff_right_of_imp]
  rintro ⟨a, ha, -⟩
  exact (List.getElem?_eq_some_iff.1 ha).1

theorem isOptional_iff {x : Symbol} : isOptional ps start x = true ↔
    ∃ a, x = .nonterminal a ∧ Derives ps [.nonterminal a] [] := by
  cases x with
  | terminal t => simp [isOptional, Numbering.isMember]
  | nonterminal a => simp [isOptional_nonterminal_iff]

variable (start) in
/-- The place of one more symbol is new, if the symbol may be left out. -/
theorem nullablePlaces_concat (rhs : List Symbol) (x : Symbol) :
    nullablePlaces ps (rhs ++ [x]) =
      if isOptional ps start x then insert rhs.length (nullablePlaces ps rhs)
      else nullablePlaces ps rhs := by
  ext i
  have hlast : i ∈ nullablePlaces ps (rhs ++ [x]) ↔
      i ∈ nullablePlaces ps rhs ∨ i = rhs.length ∧ isOptional ps start x = true := by
    rw [mem_nullablePlaces, mem_nullablePlaces, isOptional_iff]
    rcases Nat.lt_trichotomy i rhs.length with hlt | rfl | hgt
    · simp [List.getElem?_append_left hlt, Nat.ne_of_lt hlt]
    · simp
    · have hnone : rhs[i]? = none := List.getElem?_eq_none (Nat.le_of_lt hgt)
      have hnone' : (rhs ++ [x])[i]? = none := by
        apply List.getElem?_eq_none
        rw [List.length_append, List.length_singleton]
        exact hgt
      simp [hnone, hnone', Nat.ne_of_gt hgt]
  rw [hlast]
  split
  · next hx => simp [hx, or_comm]
  · next hx => simp [hx]

theorem length_notMem_nullablePlaces (ps : List Production) (rhs : List Symbol) :
    rhs.length ∉ nullablePlaces ps rhs := by
  simp [mem_nullablePlaces]

/-! ### The variants -/

/-- The subsets of a set with one more member: those without it, and those with it. -/
theorem map_powerset_insert {α : Type} {s : Finset Nat} {i : Nat} (hi : i ∉ s)
    (f : Finset Nat → α) : (insert i s).powerset.val.map f =
      s.powerset.val.map f + s.powerset.val.map fun t => f (insert i t) := by
  have hsingle (u : Multiset (Finset Nat)) (f : Finset Nat → α) :
      (u.map fun t => ({f t} : Multiset α)).sum = u.map f := by
    rw [← Multiset.sum_map_singleton (u.map f), Multiset.map_map]
    rfl
  have hsum := Finset.sum_powerset_insert hi fun t => ({f t} : Multiset α)
  rwa [Finset.sum, Finset.sum, Finset.sum, hsingle, hsingle, hsingle] at hsum

/-- A fork keeps the symbol in one copy of what is there, and leaves it out in another. -/
theorem coe_forkAt_of_optional {optional : Symbol → Bool} {x : Symbol} (hx : optional x = true)
    (partials : List (List Symbol)) : (forkAt optional partials x : Multiset (List Symbol)) =
      (partials : Multiset (List Symbol)).map (· ++ [x]) + partials := by
  rw [forkAt, if_pos hx, Multiset.map_coe, Multiset.coe_add, Multiset.coe_eq_coe]
  have hperm := List.map_append_flatMap_perm partials (· ++ [x]) fun rhs => [rhs]
  rw [List.flatMap_singleton'] at hperm
  exact hperm.symm

variable (ps start) in
/-- **The variants of a right-hand side**: one for each set of nullable places. -/
theorem variants_eq_map_powerset (rhs : List Symbol) :
    (variants (isOptional ps start) rhs : Multiset (List Symbol)) =
      (nullablePlaces ps rhs).powerset.val.map (leavingOut · rhs) := by
  induction rhs using List.reverseRecOn with
  | nil => rfl
  | append_singleton rhs x ih =>
    have hnew := length_notMem_nullablePlaces ps rhs
    -- in the sets of earlier places the symbol is kept
    have hkept : (nullablePlaces ps rhs).powerset.val.map (leavingOut · (rhs ++ [x])) =
        (variants (isOptional ps start) rhs : Multiset (List Symbol)).map (· ++ [x]) := by
      rw [ih, Multiset.map_map]
      refine Multiset.map_congr rfl fun s hs => ?_
      have hout : rhs.length ∉ s := fun h => hnew (Finset.mem_powerset.1 hs h)
      simp [leavingOut_concat, hout]
    rw [variants_concat, nullablePlaces_concat start]
    split
    · next hx =>
      rw [map_powerset_insert hnew, hkept, coe_forkAt_of_optional hx]
      congr 1
      rw [ih]
      refine Multiset.map_congr rfl fun s _ => ?_
      simp [leavingOut_concat, leavingOut_insert_length]
    · next hx =>
      rw [hkept, forkAt, if_neg hx]
      rfl

theorem length_variants (rhs : List Symbol) :
    (variants (isOptional ps start) rhs).length = 2 ^ (nullablePlaces ps rhs).card := by
  rw [← Multiset.coe_card, variants_eq_map_powerset, Multiset.card_map, Finset.card_val,
    Finset.card_powerset]

theorem mem_variants_iff {rhs r : List Symbol} : r ∈ variants (isOptional ps start) rhs ↔
    ∃ s ⊆ nullablePlaces ps rhs, r = leavingOut s rhs := by
  rw [← Multiset.mem_coe, variants_eq_map_powerset, Multiset.mem_map]
  simp [eq_comm]

/-- **What elimination of empty productions makes**: from each production those that arise when the
symbols at some places of nullable nonterminals are left out, but no empty one for other symbols
than the start symbol.  None is made twice in the end.  Before repetitions are removed there is one
variant for each set of nullable places: `2 ^ m` for `m` places. -/
theorem eliminateEmpty_variants (ps : List Production) (start : Nonterminal) :
    (eliminateEmpty ps start).Nodup ∧
    (∀ a r, ⟨a, r⟩ ∈ eliminateEmpty ps start ↔
      (∃ p ∈ ps, p.lhs = a ∧ ∃ s ⊆ nullablePlaces ps p.rhs, r = leavingOut s p.rhs) ∧
        (r ≠ [] ∨ a = start)) ∧
    ∀ rhs, (variants (isOptional ps start) rhs : Multiset (List Symbol)) =
        (nullablePlaces ps rhs).powerset.val.map (leavingOut · rhs) ∧
      (variants (isOptional ps start) rhs).length = 2 ^ (nullablePlaces ps rhs).card := by
  refine ⟨nodup_eraseDups _, fun a r => ?_, fun rhs => ?_⟩
  · rw [mem_eliminateEmpty]
    simp only [mem_variants_iff]
  · exact ⟨variants_eq_map_powerset ps start rhs, length_variants rhs⟩

/-- One nonterminal may be kept at one place and left out at another. -/
example : variants (· = .nonterminal ⟨"A"⟩)
    [.nonterminal ⟨"A"⟩, .terminal ⟨"b"⟩, .nonterminal ⟨"A"⟩] =
      [[.nonterminal ⟨"A"⟩, .terminal ⟨"b"⟩, .nonterminal ⟨"A"⟩],
        [.nonterminal ⟨"A"⟩, .terminal ⟨"b"⟩], [.terminal ⟨"b"⟩, .nonterminal ⟨"A"⟩],
        [.terminal ⟨"b"⟩]] := by decide

end GrammarSampler
