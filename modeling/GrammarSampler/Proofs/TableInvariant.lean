import GrammarSampler.Counting.DerivationTable
import GrammarSampler.Proofs.Closures

/-!
# Tables that a session reaches

`DerivationTable.Counts g t` says what a table of the grammar `g` holds: its numbering and its
rules, in each row for the lengths 0 and 1 the numbers of rules, and for every longer one the
recurrence over the splits (`Counts.entry_eq`).  The first table has it (`counts_ofGrammar`), and
every extension keeps it (`Counts.extend`).

The places of a row are within its capacity, which never exceeds the limit (`Allocated`).  So an
extension is refused exactly if the rows have to grow and cannot (`Allocated.extend?_eq_none_iff`),
which depends on how they have grown before.  There is always room for half the limit
(`fits_of_two_mul_le`).

An extension fills the new places in the order of the lengths.  A place is filled from places for
smaller lengths, which are never filled again, so that what is read is what stays
(`entry_foldl_fillPlace`).  Every call extends the table or leaves it as it is (`run_cases`); so
what every extension keeps holds of all tables that a list of calls reaches (`runCalls_induct`).
-/

namespace GrammarSampler

namespace DerivationTable

variable {t : DerivationTable}

/-! ### Places -/

theorem rowOf_fillPlace (t : DerivationTable) (p : Nat × Nat) (j : Nat) : (t.fillPlace p).rowOf j =
    if p.1 = j then (t.rowOf j).setIfInBounds p.2 (total (t.pairSums p.1 p.2)) else t.rowOf j := by
  simp only [rowOf, fillPlace, Array.getD_eq_getD_getElem?, Array.getElem?_modify]
  split
  · cases t.rows[j]? <;> simp
  · rfl

/-- Filling a place changes no other one. -/
theorem entry_fillPlace_of_ne {p : Nat × Nat} {j k : Nat} (h : (j, k) ≠ p) :
    (t.fillPlace p).entry j k = t.entry j k := by
  rw [entry, entry, rowOf_fillPlace]
  split
  · next hj =>
    have hk : p.2 ≠ k := fun hk => h (Prod.ext hj.symm hk.symm)
    simp [Array.getD_eq_getD_getElem?, Array.getElem?_setIfInBounds_ne hk]
  · rfl

theorem entry_fillPlace_self {i n : Nat} (h : n < (t.rowOf i).size) :
    (t.fillPlace (i, n)).entry i n = total (t.pairSums i n) := by
  rw [entry, rowOf_fillPlace, if_pos rfl]
  simp [Array.getD_eq_getD_getElem?, h]

/-- A row for each nonterminal, with places for the lengths up to `n`. -/
structure Shaped (n : Nat) (t : DerivationTable) : Prop where
  rules : t.rules.size = t.numbering.size
  rows : t.rows.size = t.numbering.size
  row : ∀ i < t.numbering.size, (t.rowOf i).size = n + 1

theorem Shaped.fillPlace {n : Nat} (h : t.Shaped n) (p : Nat × Nat) : (t.fillPlace p).Shaped n where
  rules := h.rules
  rows := Array.size_modify.trans h.rows
  row i hi := by
    rw [rowOf_fillPlace]
    split
    · rw [Array.size_setIfInBounds]
      exact h.row i hi
    · exact h.row i hi

theorem Shaped.foldl_fillPlace {n : Nat} {ps : List (Nat × Nat)} (h : t.Shaped n) :
    (ps.foldl DerivationTable.fillPlace t).Shaped n := by
  induction ps generalizing t with
  | nil => exact h
  | cons p ps ih => exact ih (h.fillPlace p)

/-- Filling places changes the rows only. -/
theorem foldl_fillPlace_eq (t : DerivationTable) (ps : List (Nat × Nat)) :
    ps.foldl fillPlace t = { t with rows := (ps.foldl fillPlace t).rows } := by
  induction ps generalizing t with
  | nil => rfl
  | cons p ps ih => exact ih (t.fillPlace p)

theorem entry_foldl_fillPlace_of_not_mem {ps : List (Nat × Nat)} {j k : Nat} (h : (j, k) ∉ ps) :
    (ps.foldl fillPlace t).entry j k = t.entry j k := by
  induction ps generalizing t with
  | nil => rfl
  | cons p ps ih =>
    rw [List.mem_cons, not_or] at h
    exact (ih h.2).trans (entry_fillPlace_of_ne h.1)

/-- New places hold zeros, as if they were not there. -/
theorem entry_lengthen (t : DerivationTable) (n i k : Nat) :
    (t.lengthen n).entry i k = t.entry i k := by
  simp only [entry, rowOf, lengthen, Array.getD_eq_getD_getElem?, Array.getElem?_map]
  cases t.rows[i]? with
  | none => rfl
  | some row =>
    rcases Nat.lt_or_ge k row.size with hk | hk
    · simp [Array.getElem?_append, hk]
    · simp [Array.getElem?_append, Nat.not_lt.2 hk, Array.getElem?_replicate, Option.getD]
      split <;> simp_all

theorem Shaped.lengthen {m n : Nat} (h : t.Shaped m) (hmn : m ≤ n) : (t.lengthen n).Shaped n where
  rules := h.rules
  rows := (Array.size_map ..).trans h.rows
  row i hi := by
    have hrow := h.row i hi
    have hlt : i < t.rows.size := h.rows ▸ hi
    simp only [rowOf, DerivationTable.lengthen, Array.getD_eq_getD_getElem?, Array.getElem?_map,
      Array.getElem?_eq_getElem hlt, Option.getD_some] at hrow ⊢
    simp
    omega

/-! ### The order of filling -/

/-- The splits of a length read shorter lengths only. -/
theorem splitCounts_congr {u : DerivationTable} {n : Nat}
    (h : ∀ i k, k < n → u.entry i k = t.entry i k) (b c : Nat) :
    u.splitCounts b c n = t.splitCounts b c n := by
  refine List.map_congr_left fun k hk => ?_
  have hk := List.mem_range.1 hk
  rw [splitCount, splitCount, h b _ (by omega), h c _ (by omega)]

theorem splitSum_congr {u : DerivationTable} {n : Nat}
    (h : ∀ i k, k < n → u.entry i k = t.entry i k) (b c : Nat) :
    u.splitSum b c n = t.splitSum b c n := by
  rw [splitSum, splitSum, splitCounts_congr h]

theorem pairSums_congr {u : DerivationTable} {n i : Nat} (hrules : u.rulesOf i = t.rulesOf i)
    (h : ∀ i k, k < n → u.entry i k = t.entry i k) : u.pairSums i n = t.pairSums i n := by
  rw [pairSums, pairSums, hrules]
  exact List.map_congr_left fun bc _ => splitSum_congr h bc.1 bc.2

/-- In the order of the lengths, and no place twice. -/
def InOrder (ps : List (Nat × Nat)) : Prop := ps.Pairwise fun p q => p.2 ≤ q.2 ∧ p ≠ q

theorem mem_places {m k i n : Nat} :
    (i, n) ∈ t.places m k ↔ i < t.rules.size ∧ m ≤ n ∧ n < m + k := by
  simp only [places, List.mem_flatMap, List.mem_range'_1, List.mem_map, List.mem_range,
    Prod.mk.injEq]
  constructor
  · rintro ⟨n', hn, i', hi, rfl, rfl⟩
    exact ⟨hi, hn⟩
  · rintro ⟨hi, hn⟩
    exact ⟨n, hn, i, hi, rfl, rfl⟩

theorem inOrder_places (t : DerivationTable) (m k : Nat) : InOrder (t.places m k) := by
  refine List.pairwise_flatMap.2 ⟨fun n _ => ?_, ?_⟩
  · refine List.pairwise_map.2 (List.pairwise_lt_range.imp fun {i j} hij => ?_)
    exact ⟨Nat.le_refl n, fun h => Nat.ne_of_lt hij (Prod.mk.inj h).1⟩
  · refine (List.pairwise_lt_range' 1).imp fun {n n'} hlt p hp q hq => ?_
    obtain ⟨i, -, rfl⟩ := List.mem_map.1 hp
    obtain ⟨j, -, rfl⟩ := List.mem_map.1 hq
    exact ⟨Nat.le_of_lt hlt, fun h => Nat.ne_of_lt hlt (Prod.mk.inj h).2⟩

/-- Filling places for a length and longer ones changes no shorter one. -/
theorem entry_foldl_fillPlace_of_lt {ps : List (Nat × Nat)} {n : Nat} (h : ∀ p ∈ ps, n ≤ p.2)
    (i : Nat) {k : Nat} (hk : k < n) : (ps.foldl fillPlace t).entry i k = t.entry i k :=
  entry_foldl_fillPlace_of_not_mem fun hmem => Nat.not_le.2 hk (h _ hmem)

theorem rulesOf_foldl_fillPlace (t : DerivationTable) (ps : List (Nat × Nat)) (i : Nat) :
    (ps.foldl fillPlace t).rulesOf i = t.rulesOf i := by
  rw [rulesOf, rulesOf, foldl_fillPlace_eq]

/-- **What is filled stays right**: in the end every filled place holds the sum over its splits. -/
theorem entry_foldl_fillPlace {ps : List (Nat × Nat)} {n : Nat} (hps : InOrder ps)
    (ht : t.Shaped n) (hn : ∀ p ∈ ps, p.1 < t.numbering.size ∧ p.2 ≤ n) {p : Nat × Nat}
    (hp : p ∈ ps) : (ps.foldl fillPlace t).entry p.1 p.2 =
      total ((ps.foldl fillPlace t).pairSums p.1 p.2) := by
  induction ps generalizing t with
  | nil => cases hp
  | cons q ps ih =>
    obtain ⟨hfirst, hrest⟩ := List.pairwise_cons.1 hps
    obtain ⟨⟨hq₁, hq₂⟩, hn⟩ := List.forall_mem_cons.1 hn
    rcases List.mem_cons.1 hp with rfl | hp
    · have hplace : p.2 < (t.rowOf p.1).size := by
        rw [ht.row p.1 hq₁]
        omega
      have hlater : ∀ r ∈ p :: ps, p.2 ≤ r.2 :=
        List.forall_mem_cons.2 ⟨Nat.le_refl _, fun r hr => (hfirst r hr).1⟩
      rw [pairSums_congr (rulesOf_foldl_fillPlace t (p :: ps) p.1) fun i k hk =>
          entry_foldl_fillPlace_of_lt hlater i hk,
        List.foldl_cons, entry_foldl_fillPlace_of_not_mem fun hmem => (hfirst _ hmem).2 rfl]
      exact entry_fillPlace_self hplace
    · exact ih hrest (ht.fillPlace q) hn hp

/-! ### Filling up to a length -/

theorem numbering_fillUpTo (t : DerivationTable) (n : Nat) :
    (t.fillUpTo n).numbering = t.numbering := by
  rw [fillUpTo, foldl_fillPlace_eq, lengthen]

theorem capacity_fillUpTo (t : DerivationTable) (n : Nat) :
    (t.fillUpTo n).capacity = grownCapacity t.capacity (n + 1) := by
  rw [fillUpTo, foldl_fillPlace_eq, lengthen]

theorem rulesOf_fillUpTo (t : DerivationTable) (n i : Nat) :
    (t.fillUpTo n).rulesOf i = t.rulesOf i :=
  rulesOf_foldl_fillPlace (t.lengthen n) _ i

theorem Shaped.fillUpTo {n : Nat} (h : t.Shaped t.maxLength) (hn : t.maxLength ≤ n) :
    (t.fillUpTo n).Shaped n :=
  (h.lengthen hn).foldl_fillPlace

/-- The counts that are there stay. -/
theorem entry_fillUpTo_of_le {n k : Nat} (hk : k ≤ t.maxLength) (i : Nat) :
    (t.fillUpTo n).entry i k = t.entry i k := by
  have hlong : ∀ p ∈ t.places (t.maxLength + 1) (n - t.maxLength), t.maxLength + 1 ≤ p.2 :=
    fun p hp => (mem_places.1 hp).2.1
  exact (entry_foldl_fillPlace_of_lt hlong i (by omega)).trans (entry_lengthen t n i k)

/-- The counts that are new are those of the recurrence. -/
theorem Shaped.entry_fillUpTo {n k i : Nat} (h : t.Shaped t.maxLength) (hi : i < t.numbering.size)
    (hk : t.maxLength < k) (hkn : k ≤ n) :
    (t.fillUpTo n).entry i k = total ((t.fillUpTo n).pairSums i k) := by
  have hnew : ∀ p ∈ t.places (t.maxLength + 1) (n - t.maxLength),
      p.1 < (t.lengthen n).numbering.size ∧ p.2 ≤ n := by
    intro p hp
    obtain ⟨hp₁, -, hp₂⟩ := mem_places.1 hp
    exact ⟨h.rules ▸ hp₁, by omega⟩
  have hmem : (i, k) ∈ t.places (t.maxLength + 1) (n - t.maxLength) :=
    mem_places.2 ⟨h.rules ▸ hi, by omega, by omega⟩
  exact entry_foldl_fillPlace (inOrder_places t _ _) (h.lengthen (by omega)) hnew hmem

/-! ### What a table holds -/

/-- **The table holds the counts of `g`** by their recurrence. -/
structure Counts (g : Grammar) (t : DerivationTable) : Prop where
  numbering : t.numbering = Numbering.ofProductions g.start g.productions
  rules : ∀ i a, t.numbering.id? a = some i →
    t.rulesOf i = RuleSet.ofProductions t.numbering g.productions a
  unknown : ∀ i, t.numbering.size ≤ i → t.rulesOf i = default
  shaped : t.Shaped t.maxLength
  one_le : 1 ≤ t.maxLength
  entry_zero : ∀ i, t.entry i 0 = if (t.rulesOf i).hasEmpty then 1 else 0
  entry_one : ∀ i, t.entry i 1 = (t.rulesOf i).terminals.length
  entry_eq : ∀ i n, 2 ≤ n → n ≤ t.maxLength → t.entry i n = total (t.pairSums i n)

variable {g : Grammar}

theorem counts_ofGrammar (g : Grammar) : (ofGrammar g).Counts g where
  numbering := rfl
  rules i a h := by
    have hget : (Numbering.ofProductions g.start g.productions).names[i]? = some a :=
      Numbering.id?_eq_some_iff.1 h
    simp [rulesOf, ofGrammar, Array.getD_eq_getD_getElem?, hget]
  unknown i h := by
    have hget : (Numbering.ofProductions g.start g.productions).names[i]? = none :=
      List.getElem?_eq_none h
    simp [rulesOf, ofGrammar, Array.getD_eq_getD_getElem?, hget]
  shaped := by
    refine ⟨by simp [ofGrammar, Numbering.size], by simp [ofGrammar, Numbering.size],
      fun i hi => ?_⟩
    have hi : i < (Numbering.ofProductions g.start g.productions).names.length := hi
    simp [rowOf, ofGrammar, Array.getD_eq_getD_getElem?, List.getElem?_eq_getElem hi]
  one_le := Nat.le_refl 1
  entry_zero i := by
    simp only [entry, rowOf, rulesOf, ofGrammar, Array.getD_eq_getD_getElem?, Array.getElem?_map]
    cases (List.map _ _).toArray[i]? <;> rfl
  entry_one i := by
    simp only [entry, rowOf, rulesOf, ofGrammar, Array.getD_eq_getD_getElem?, Array.getElem?_map]
    cases (List.map _ _).toArray[i]? <;> rfl
  entry_eq i n h2 hn := absurd hn (Nat.not_le.2 h2)

/-- Without a row there are no counts. -/
theorem Shaped.entry_eq_zero {n : Nat} (h : t.Shaped n) {i : Nat} (hi : t.numbering.size ≤ i)
    (k : Nat) : t.entry i k = 0 := by
  have hrow : t.rows[i]? = none := Array.getElem?_eq_none (h.rows ▸ hi)
  simp [entry, rowOf, Array.getD_eq_getD_getElem?, hrow]

theorem Counts.fillUpTo {n : Nat} (h : t.Counts g) (hn : t.maxLength < n) :
    Counts g { t.fillUpTo n with maxLength := n } := by
  have hone := h.one_le
  have hrules := rulesOf_fillUpTo t n
  have hshaped := h.shaped.fillUpTo (Nat.le_of_lt hn)
  have hnumbering := numbering_fillUpTo t n
  constructor
  · exact hnumbering.trans h.numbering
  · intro i a hi
    have hi : t.numbering.id? a = some i := hnumbering ▸ hi
    show (t.fillUpTo n).rulesOf i = RuleSet.ofProductions (t.fillUpTo n).numbering g.productions a
    rw [hrules, hnumbering, h.rules i a hi]
  · intro i hi
    have hi : t.numbering.size ≤ i := hnumbering ▸ hi
    exact (hrules i).trans (h.unknown i hi)
  · exact ⟨hshaped.rules, hshaped.rows, hshaped.row⟩
  · show 1 ≤ n
    omega
  · intro i
    show (t.fillUpTo n).entry i 0 = if ((t.fillUpTo n).rulesOf i).hasEmpty then 1 else 0
    rw [hrules, entry_fillUpTo_of_le (by omega), h.entry_zero]
  · intro i
    show (t.fillUpTo n).entry i 1 = ((t.fillUpTo n).rulesOf i).terminals.length
    rw [hrules, entry_fillUpTo_of_le (by omega), h.entry_one]
  · intro i k h2 hkn
    show (t.fillUpTo n).entry i k = total ((t.fillUpTo n).pairSums i k)
    rcases Nat.lt_or_ge t.maxLength k with hk | hk
    · rcases Nat.lt_or_ge i t.numbering.size with hi | hi
      · exact h.shaped.entry_fillUpTo hi hk hkn
      · rw [hshaped.entry_eq_zero (hnumbering ▸ hi), pairSums, hrules, h.unknown i hi]
        rfl
    · rw [entry_fillUpTo_of_le hk, h.entry_eq i k h2 hk, pairSums_congr (hrules i)]
      exact fun j m hm => entry_fillUpTo_of_le (by omega) j

/-- **An extension** keeps the counts of the grammar. -/
theorem Counts.extend (h : t.Counts g) (n : Nat) :
    (t.extend n).Counts g ∧ (t.extend n).maxLength = max t.maxLength n := by
  unfold DerivationTable.extend
  split
  · next hn => exact ⟨h, by omega⟩
  · next hn => exact ⟨h.fillUpTo (by omega), show n = _ by omega⟩

theorem eq_extend_of_extend? {n : Nat} {u : DerivationTable} (hu : t.extend? n = some u) :
    u = t.extend n := by
  unfold DerivationTable.extend? at hu
  split at hu
  · exact (Option.some.inj hu).symm
  · cases hu

/-- A table that is extended still holds the counts, and has those asked for. -/
theorem Counts.extend? {n : Nat} {u : DerivationTable} (h : t.Counts g)
    (hu : t.extend? n = some u) : u.Counts g ∧ n ≤ u.maxLength := by
  obtain rfl := eq_extend_of_extend? hu
  obtain ⟨hc, hmax⟩ := h.extend n
  exact ⟨hc, by omega⟩

theorem Counts.copy (h : t.Counts g) : t.copy.Counts g :=
  { h with shaped := ⟨h.shaped.rules, h.shaped.rows, h.shaped.row⟩ }

/-! ### Room for more lengths -/

/-- **The rows have their places** within their capacity, and that is within the limit. -/
structure Allocated (t : DerivationTable) : Prop where
  maxLength_lt : t.maxLength < t.capacity
  capacity_le : t.capacity ≤ sequenceLimit

theorem allocated_ofGrammar (g : Grammar) : (ofGrammar g).Allocated where
  maxLength_lt := show 1 < 2 by decide
  capacity_le := show 2 ≤ sequenceLimit by decide

section room

variable {n : Nat}

/-- **There is room** if the rows have the places, or can get them with double the capacity. -/
theorem fits_iff (h : t.capacity ≤ sequenceLimit) :
    t.Fits n ↔ n < t.capacity ∨ max (2 * t.capacity) (n + 1) ≤ sequenceLimit := by
  have hlimit : 4 ≤ sequenceLimit := by decide
  rw [Fits, grownCapacity]
  split <;> omega

/-- Rows that have grown for one length may have no room for another one, although new rows have. -/
example : grownCapacity 2 (25 * 10 ^ 16) ≤ sequenceLimit ∧
    ¬grownCapacity (grownCapacity 2 (20 * 10 ^ 16)) (25 * 10 ^ 16) ≤ sequenceLimit := by decide

/-- For half the limit there is always room, as rows that have to grow are no longer. -/
theorem fits_of_two_mul_le (h : t.capacity ≤ sequenceLimit) (hn : 2 * n ≤ sequenceLimit) :
    t.Fits n := by
  have hlimit : 2 ≤ sequenceLimit := by decide
  rw [fits_iff h]
  omega

theorem fits_ofGrammar_iff : (ofGrammar g).Fits n ↔ n < sequenceLimit := by
  have hlimit : 4 ≤ sequenceLimit := by decide
  have htwo : (ofGrammar g).capacity = 2 := rfl
  rw [fits_iff (allocated_ofGrammar g).capacity_le, htwo]
  omega

/-- There is room for what is there. -/
theorem Allocated.fits_of_le (h : t.Allocated) (hn : n ≤ t.maxLength) : t.Fits n := by
  have hlt := h.maxLength_lt
  rw [Fits, grownCapacity, if_pos (by omega)]
  exact h.capacity_le

/-- **An extension is refused** exactly if there is no room for it. -/
theorem Allocated.extend?_eq_none_iff (h : t.Allocated) : t.extend? n = none ↔ ¬t.Fits n := by
  have hthere : n ≤ t.maxLength → t.Fits n := h.fits_of_le
  unfold DerivationTable.extend?
  split
  · next hroom => exact iff_of_false (Option.some_ne_none _) (not_not_intro (hroom.elim hthere id))
  · next hroom => exact iff_of_true rfl fun hfits => hroom (.inr hfits)

/-- **An extension that is not refused** leaves rows that have their places. -/
theorem Allocated.extend? {u : DerivationTable} (h : t.Allocated) (hu : t.extend? n = some u) :
    u.Allocated := by
  have hfits : t.Fits n := Decidable.byContradiction fun hnot =>
    Option.some_ne_none u (hu.symm.trans (h.extend?_eq_none_iff.2 hnot))
  obtain rfl := eq_extend_of_extend? hu
  unfold extend
  split
  · exact h
  · refine ⟨?_, ?_⟩
    · show n < (t.fillUpTo n).capacity
      rw [capacity_fillUpTo, grownCapacity]
      split <;> omega
    · show (t.fillUpTo n).capacity ≤ sequenceLimit
      rw [capacity_fillUpTo]
      exact hfits

theorem Allocated.copy (h : t.Allocated) : t.copy.Allocated where
  maxLength_lt := Nat.lt_succ_self _
  capacity_le := Nat.le_trans h.maxLength_lt h.capacity_le

end room

end DerivationTable

/-! ### Calls -/

/-- A call on a table that may extend it. -/
inductive TableCall where
  | extend (n : Nat)
  | count (a : Nonterminal) (n : Nat)
  | countProduction (p : Production) (n : Nat)

namespace TableCall

/-- The length that is asked for. -/
def length : TableCall → Nat
  | extend n => n
  | count _ n => n
  | countProduction _ n => n

/-- The table after the call, if the call answers. -/
def run (t : DerivationTable) : TableCall → Option DerivationTable
  | extend n => t.extend? n
  | count a n => (t.count? a n).map Prod.snd
  | countProduction p n => (t.countProduction? p n).map Prod.snd

end TableCall

namespace DerivationTable

variable {g : Grammar} {t u : DerivationTable}

/-- The table after all calls, if every call answers. -/
def runCalls (t : DerivationTable) : List TableCall → Option DerivationTable
  | [] => some t
  | call :: calls => (call.run t).bind fun u => u.runCalls calls

/-- A production is counted in the table itself or in the extended one. -/
theorem map_countProduction? (t : DerivationTable) (p : Production) (n : Nat) :
    (t.countProduction? p n).map Prod.snd = some t ∨
      (t.countProduction? p n).map Prod.snd = t.extend? n := by
  unfold countProduction? countPair?
  repeat' split
  all_goals simp [Function.comp_def]

/-- **One call**: the table stays as it is or is extended to the length asked for. -/
theorem run_cases (t : DerivationTable) (call : TableCall) :
    call.run t = some t ∨ call.run t = t.extend? call.length := by
  cases call with
  | extend n => exact .inr rfl
  | count a n =>
    rw [TableCall.run, count?]
    split
    · exact .inl rfl
    · exact .inr (by simp [Function.comp_def, TableCall.length])
  | countProduction p n => exact map_countProduction? t p n

/-- **One call** keeps what every extension keeps. -/
theorem run_induct {P : DerivationTable → Prop} {call : TableCall}
    (hextend : ∀ {t u n}, P t → t.extend? n = some u → P u) (h : P t)
    (hu : call.run t = some u) : P u := by
  rcases run_cases t call with heq | heq
  · exact Option.some.inj (heq.symm.trans hu) ▸ h
  · exact hextend h (heq.symm.trans hu)

/-- **All calls** keep what every extension keeps. -/
theorem runCalls_induct {P : DerivationTable → Prop} {calls : List TableCall}
    (hextend : ∀ {t u n}, P t → t.extend? n = some u → P u) (h : P t)
    (hu : t.runCalls calls = some u) : P u := by
  induction calls generalizing t with
  | nil => exact Option.some.inj hu ▸ h
  | cons call calls ih =>
    obtain ⟨v, hv, hu⟩ := Option.bind_eq_some_iff.1 hu
    exact ih (run_induct hextend h hv) hu

theorem Counts.run {call : TableCall} (h : t.Counts g) (hu : call.run t = some u) : u.Counts g :=
  run_induct (fun ht hext => (ht.extend? hext).1) h hu

theorem Counts.runCalls {calls : List TableCall} (h : t.Counts g)
    (hu : t.runCalls calls = some u) : u.Counts g :=
  runCalls_induct (fun ht hext => (ht.extend? hext).1) h hu

theorem Allocated.run {call : TableCall} (h : t.Allocated) (hu : call.run t = some u) :
    u.Allocated :=
  run_induct (fun ht hext => ht.extend? hext) h hu

theorem Allocated.runCalls {calls : List TableCall} (h : t.Allocated)
    (hu : t.runCalls calls = some u) : u.Allocated :=
  runCalls_induct (fun ht hext => ht.extend? hext) h hu

/-- A call is answered if there is room for the length that it asks for. -/
theorem Allocated.exists_run {call : TableCall} (h : t.Allocated) (hfits : t.Fits call.length) :
    ∃ u, call.run t = some u := by
  rcases run_cases t call with heq | heq
  · exact ⟨t, heq⟩
  · rw [heq]
    exact Option.ne_none_iff_exists'.1 fun hnone => h.extend?_eq_none_iff.1 hnone hfits

/-- **Calls with lengths up to half the limit** are all answered. -/
theorem Allocated.exists_runCalls {calls : List TableCall} (h : t.Allocated)
    (hlength : ∀ call ∈ calls, 2 * call.length ≤ sequenceLimit) :
    ∃ u, t.runCalls calls = some u := by
  induction calls generalizing t with
  | nil => exact ⟨t, rfl⟩
  | cons call calls ih =>
    obtain ⟨hcall, hlength⟩ := List.forall_mem_cons.1 hlength
    obtain ⟨v, hv⟩ := h.exists_run (fits_of_two_mul_le h.capacity_le hcall)
    obtain ⟨u, hu⟩ := ih (h.run hv) hlength
    exact ⟨u, Option.bind_eq_some_iff.2 ⟨v, hv, hu⟩⟩

end DerivationTable

end GrammarSampler
