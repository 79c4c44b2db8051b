import Mathlib.Data.List.Perm.Subperm
import Mathlib.Data.List.Nodup
import GrammarSampler.Symbol.NameSupply

/-!
# Fresh names are fresh

The names of the sequence differ from each other (`letterName_injective`), so that of one name more
than there are in use, one is free.  The search for it thus ends at a free name
(`letterName_nextPlace_not_mem`).

Names that are drawn in a row (`NameSupply.Draws`) were not in use before, are in use after, and
differ from each other.
-/

namespace GrammarSampler

/-! ### The sequence of names -/

theorem letter_injOn {i j : Nat} (hi : i < 26) (hj : j < 26)
    (h : Char.ofNat ('A'.toNat + i) = Char.ofNat ('A'.toNat + j)) : i = j := by
  have hval : ∀ k < 26, (Char.ofNat ('A'.toNat + k)).toNat = 'A'.toNat + k := by decide
  have hnat := congrArg Char.toNat h
  rw [hval i hi, hval j hj] at hnat
  omega

theorem letterName_injective {i j : Nat} (h : letterName i = letterName j) : i = j := by
  have hlist := String.ofList_injective h
  have hlen := congrArg List.length hlist
  simp only [List.length_replicate] at hlen
  have hhead : Char.ofNat ('A'.toNat + i % 26) = Char.ofNat ('A'.toNat + j % 26) := by
    rw [List.replicate_succ, List.replicate_succ] at hlist
    exact (List.cons.inj hlist).1
  have hmod := letter_injOn (Nat.mod_lt i (by omega)) (Nat.mod_lt j (by omega)) hhead
  omega

namespace NameSupply

/-! ### The search for a free name -/

/-- All names that the search has passed are in use. -/
theorem mem_of_lt_freePlace {used : List String} {n i j : Nat} (hi : i ≤ j)
    (hj : j < freePlace used n i) : letterName j ∈ used := by
  induction n generalizing i with
  | zero =>
    unfold freePlace at hj
    omega
  | succ n ih =>
    unfold freePlace at hj
    split at hj
    · next h =>
      rcases Nat.eq_or_lt_of_le hi with rfl | hi
      · exact h
      · exact ih hi hj
    · omega

/-- A search that ends at a name in use has passed as many places as it could. -/
theorem freePlace_eq_of_mem {used : List String} {n i : Nat}
    (h : letterName (freePlace used n i) ∈ used) : freePlace used n i = i + n := by
  induction n generalizing i with
  | zero => rfl
  | succ n ih =>
    unfold freePlace at h ⊢
    split at h
    · next hi =>
      rw [if_pos hi, ih h]
      omega
    · next hi => exact absurd h hi

theorem letterName_nextPlace_not_mem (s : NameSupply) : letterName s.nextPlace ∉ s.used := by
  intro h
  have heq := freePlace_eq_of_mem h
  have hall : ∀ k ≤ s.used.length, letterName (s.cursor + k) ∈ s.used := by
    intro k hk
    rcases Nat.eq_or_lt_of_le hk with rfl | hk
    · exact heq ▸ h
    · exact mem_of_lt_freePlace (Nat.le_add_right ..) (by rw [heq]; omega)
  -- one name too many would be in use
  have hnodup : ((List.range (s.used.length + 1)).map fun k => letterName (s.cursor + k)).Nodup :=
    List.Nodup.map (fun j k hjk => Nat.add_left_cancel (letterName_injective hjk)) List.nodup_range
  have hsub : ((List.range (s.used.length + 1)).map fun k => letterName (s.cursor + k)) ⊆
      s.used := by
    intro name hname
    obtain ⟨k, hk, rfl⟩ := List.mem_map.1 hname
    exact hall k (Nat.le_of_lt_succ (List.mem_range.1 hk))
  have hlen := (List.subperm_of_subset hnodup hsub).length_le
  rw [List.length_map, List.length_range] at hlen
  omega

theorem next_name_not_mem (s : NameSupply) : s.next.1 ∉ s.used := s.letterName_nextPlace_not_mem

/-- The name that is drawn is in use from then on, and no other is. -/
theorem mem_used_next {s : NameSupply} {b : String} :
    b ∈ s.next.2.used ↔ b = s.next.1 ∨ b ∈ s.used := mem_used_reserve

/-! ### Names in a row -/

/-- The names are those that are drawn from `s` one after another, and `s'` is left. -/
def Draws (s : NameSupply) (names : List String) (s' : NameSupply) : Prop :=
  s.take names.length = (names, s')

theorem draws_nil_iff {s s' : NameSupply} : s.Draws [] s' ↔ s = s' := by
  simp [Draws, take]

theorem draws_next (s : NameSupply) : s.Draws [s.next.1] s.next.2 := rfl

theorem draws_cons_iff {s s' : NameSupply} {name : String} {names : List String} :
    s.Draws (name :: names) s' ↔ name = s.next.1 ∧ s.next.2.Draws names s' := by
  simp only [Draws, List.length_cons, take, Prod.mk.injEq, List.cons.injEq]
  rw [Prod.ext_iff, and_assoc, eq_comm]

theorem Draws.append {s s' s'' : NameSupply} {names names' : List String} (h : s.Draws names s')
    (h' : s'.Draws names' s'') : s.Draws (names ++ names') s'' := by
  induction names generalizing s with
  | nil =>
    obtain rfl := draws_nil_iff.1 h
    exact h'
  | cons name names ih =>
    obtain ⟨hname, hrest⟩ := draws_cons_iff.1 h
    exact draws_cons_iff.2 ⟨hname, ih hrest⟩

/-- The names that are drawn are in use from then on, and no other is. -/
theorem Draws.mem_used {s s' : NameSupply} {names : List String} (h : s.Draws names s')
    {b : String} : b ∈ s'.used ↔ b ∈ names ∨ b ∈ s.used := by
  induction names generalizing s with
  | nil =>
    obtain rfl := draws_nil_iff.1 h
    simp
  | cons name names ih =>
    obtain ⟨rfl, hrest⟩ := draws_cons_iff.1 h
    rw [ih hrest, mem_used_next, List.mem_cons, or_assoc, or_left_comm]

/-- The names that are drawn were not in use. -/
theorem Draws.not_mem_used {s s' : NameSupply} {names : List String} (h : s.Draws names s') :
    ∀ name ∈ names, name ∉ s.used := by
  induction names generalizing s with
  | nil => simp
  | cons name names ih =>
    obtain ⟨rfl, hrest⟩ := draws_cons_iff.1 h
    intro b hb hused
    rcases List.mem_cons.1 hb with rfl | hb
    · exact s.next_name_not_mem hused
    · exact ih hrest b hb (mem_used_next.2 (.inr hused))

/-- No name is drawn twice. -/
theorem Draws.nodup {s s' : NameSupply} {names : List String} (h : s.Draws names s') :
    names.Nodup := by
  induction names generalizing s with
  | nil => exact List.nodup_nil
  | cons name names ih =>
    obtain ⟨rfl, hrest⟩ := draws_cons_iff.1 h
    refine List.nodup_cons.2 ⟨?_, ih hrest⟩
    intro hmem
    exact hrest.not_mem_used _ hmem (mem_used_next.2 (.inl rfl))

end NameSupply

end GrammarSampler
