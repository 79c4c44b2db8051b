import GrammarSampler.Proofs.CheckedLists
import GrammarSampler.Proofs.SessionIndependence

/-!
# Tables do not remember how they were extended

Whatever calls have extended a table, it is the one that a single extension of the first table
makes, up to the capacity of its rows (`Counts.eq_of_maxLength_eq`): two tables that hold the counts
of one grammar up to one length are the same but for it.  The counts that are there stay, and the
greatest length never decreases.  Only whether a further extension has room depends on the capacity,
and so on how the rows have grown.

An extension works on rows with zeros for what is not counted yet, so that a read beyond the end of
a row, or of a zero that stands for a count, would go unnoticed.  The reads and writes are therefore
done again with checked bounds (`countAt?`, `fillPlace?`, `extendInRange?`), where an access out of
range is a failure: there is none (`Shaped.extendInRange?_eq`).
-/

namespace GrammarSampler

namespace DerivationTable

/-! ### Access with checked bounds -/

/-- The count of an id for a length, for which there must be a place. -/
def countAt? (t : DerivationTable) (i n : Nat) : Option Nat := t.rows[i]?.bind fun row => row[n]?

/-- `splitCount`, with places for both parts. -/
def splitCount? (t : DerivationTable) (b c n k : Nat) : Option Nat := do
  let left ← t.countAt? b k
  let right ← t.countAt? c (n - k)
  return left * right

/-- `splitSum`, with places for all parts. -/
def splitSum? (t : DerivationTable) (b c n : Nat) : Option Nat :=
  ((List.range (n - 1)).mapM fun k => t.splitCount? b c n (k + 1)).map total

/-- `fillPlace`, with all that it reads and the place itself in range. -/
def fillPlace? (t : DerivationTable) (place : Nat × Nat) : Option DerivationTable := do
  let rules ← t.rules[place.1]?
  let sums ← rules.pairs.mapM fun bc => t.splitSum? bc.1 bc.2 place.2
  let row ← t.rows[place.1]?
  guard (place.2 < row.size)
  return { t with rows := t.rows.modify place.1 fun row => row.setIfInBounds place.2 (total sums) }

/-- `extend`, with every read and write in range. -/
def extendInRange? (t : DerivationTable) (n : Nat) : Option DerivationTable :=
  if n ≤ t.maxLength then some t
  else do
    let u ← (t.places (t.maxLength + 1) (n - t.maxLength)).foldlM fillPlace? (t.lengthen n)
    return { u with maxLength := n }

variable {g : Grammar} {t u : DerivationTable} {m n : Nat}

/-- The ids on the right-hand sides of the productions have rows. -/
def Closed (t : DerivationTable) : Prop :=
  ∀ i, ∀ bc ∈ (t.rulesOf i).pairs, bc.1 < t.numbering.size ∧ bc.2 < t.numbering.size

theorem Counts.closed (h : t.Counts g) : t.Closed := by
  rintro i ⟨b, c⟩ hbc
  rcases t.id_cases g i with ⟨a, hi⟩ | ⟨hi, -⟩
  · rw [h.rules i a hi] at hbc
    obtain ⟨_, _, -, hb, hc⟩ := mem_pairs_ofProductions.1 hbc
    exact ⟨Numbering.lt_size_of_id? hb, Numbering.lt_size_of_id? hc⟩
  · rw [h.unknown i hi] at hbc
    cases hbc

theorem Shaped.getElem?_rows (h : t.Shaped n) {i : Nat} (hi : i < t.numbering.size) :
    t.rows[i]? = some (t.rowOf i) := by
  have hi : i < t.rows.size := h.rows ▸ hi
  simp [rowOf, Array.getD_eq_getD_getElem?, hi]

theorem Shaped.getElem?_rules (h : t.Shaped n) {i : Nat} (hi : i < t.numbering.size) :
    t.rules[i]? = some (t.rulesOf i) := by
  have hi : i < t.rules.size := h.rules ▸ hi
  simp [rulesOf, Array.getD_eq_getD_getElem?, hi]

theorem Shaped.countAt?_eq (h : t.Shaped n) {i k : Nat} (hi : i < t.numbering.size) (hk : k ≤ n) :
    t.countAt? i k = some (t.entry i k) := by
  have hk : k < (t.rowOf i).size := h.row i hi ▸ Nat.lt_succ_of_le hk
  rw [countAt?, h.getElem?_rows hi, entry]
  simp [Array.getD_eq_getD_getElem?, hk]

/-- The splits of a length read shorter lengths. -/
theorem Shaped.splitSum?_eq (h : t.Shaped n) {b c : Nat} (hb : b < t.numbering.size)
    (hc : c < t.numbering.size) (hm : m ≤ n + 1) :
    t.splitSum? b c m = some (t.splitSum b c m) := by
  have hsplit : ∀ k ∈ List.range (m - 1),
      t.splitCount? b c m (k + 1) = some (t.splitCount b c m (k + 1)) := by
    intro k hk
    have hk := List.mem_range.1 hk
    simp [splitCount?, splitCount, h.countAt?_eq hb (show k + 1 ≤ n by omega),
      h.countAt?_eq hc (show m - (k + 1) ≤ n by omega)]
  rw [splitSum?, mapM_eq_some hsplit]
  rfl

/-- **Filling one place** accesses places only that are there. -/
theorem Shaped.fillPlace?_eq (h : t.Shaped n) (hclosed : t.Closed) {p : Nat × Nat}
    (hp : p.1 < t.numbering.size) (hn : p.2 ≤ n) : t.fillPlace? p = some (t.fillPlace p) := by
  have hsums : ∀ bc ∈ (t.rulesOf p.1).pairs,
      t.splitSum? bc.1 bc.2 p.2 = some (t.splitSum bc.1 bc.2 p.2) := by
    intro bc hbc
    obtain ⟨hb, hc⟩ := hclosed p.1 bc hbc
    exact h.splitSum?_eq hb hc (by omega)
  have hplace : p.2 < (t.rowOf p.1).size := h.row p.1 hp ▸ Nat.lt_succ_of_le hn
  simp [DerivationTable.fillPlace?, h.getElem?_rules hp, h.getElem?_rows hp, mapM_eq_some hsums,
    guard, hplace, DerivationTable.fillPlace, pairSums]

/-- **Filling places** one after the other does so. -/
theorem Shaped.foldlM_fillPlace? {ps : List (Nat × Nat)} (h : t.Shaped n) (hclosed : t.Closed)
    (hps : ∀ p ∈ ps, p.1 < t.numbering.size ∧ p.2 ≤ n) :
    ps.foldlM DerivationTable.fillPlace? t = some (ps.foldl DerivationTable.fillPlace t) := by
  have hstep : ∀ u : DerivationTable, u.Shaped n ∧ u.Closed ∧ u.numbering = t.numbering →
      ∀ p ∈ ps, u.fillPlace? p = some (u.fillPlace p) ∧
        (u.fillPlace p).Shaped n ∧ (u.fillPlace p).Closed ∧
          (u.fillPlace p).numbering = t.numbering := by
    rintro u ⟨hu, hc, hx⟩ p hp
    obtain ⟨hp, hn⟩ := hps p hp
    exact ⟨hu.fillPlace?_eq hc (hx ▸ hp) hn, hu.fillPlace p, hc, hx⟩
  exact (foldlM_eq_some ⟨h, hclosed, rfl⟩ hstep).1

/-- **No extension** reads or writes out of range. -/
theorem Shaped.extendInRange?_eq (h : t.Shaped t.maxLength) (hclosed : t.Closed) (n : Nat) :
    t.extendInRange? n = some (t.extend n) := by
  unfold extendInRange? DerivationTable.extend
  split
  · rfl
  · next hn =>
    have hps : ∀ p ∈ t.places (t.maxLength + 1) (n - t.maxLength),
        p.1 < (t.lengthen n).numbering.size ∧ p.2 ≤ n := by
      intro p hp
      obtain ⟨hp₁, -, hp₂⟩ := mem_places.1 hp
      exact ⟨h.rules ▸ hp₁, by omega⟩
    rw [(h.lengthen (show t.maxLength ≤ n by omega)).foldlM_fillPlace? hclosed hps]
    rfl

theorem numbering_extend (t : DerivationTable) (n : Nat) :
    (t.extend n).numbering = t.numbering := by
  unfold DerivationTable.extend
  split
  · rfl
  · exact t.numbering_fillUpTo n

theorem Shaped.extend (h : t.Shaped t.maxLength) (n : Nat) :
    (t.extend n).Shaped (t.extend n).maxLength ∧ n ≤ (t.extend n).maxLength := by
  unfold DerivationTable.extend
  split
  · next hn => exact ⟨h, hn⟩
  · next hn =>
    have hfill := h.fillUpTo (show t.maxLength ≤ n by omega)
    exact ⟨⟨hfill.rules, hfill.rows, hfill.row⟩, Nat.le_refl n⟩

/-! ### Tables of one grammar -/

theorem eq_of_getElem?_eq {α : Type} {xs ys : Array α} {n : Nat} (hx : xs.size = n)
    (hy : ys.size = n) (h : ∀ i < n, xs[i]? = ys[i]?) : xs = ys := by
  refine Array.ext (hx.trans hy.symm) fun i hix hiy => ?_
  have hi := h i (hx ▸ hix)
  simpa [hix, hiy] using hi

/-- The rows are what can be read of them. -/
theorem Shaped.rowOf_eq (ht : t.Shaped n) (hu : u.Shaped n) (hnumbering : u.numbering = t.numbering)
    (hagree : Agree n t u) {i : Nat} (hi : i < t.numbering.size) : u.rowOf i = t.rowOf i := by
  have hsize : (u.rowOf i).size = (t.rowOf i).size := by
    rw [ht.row i hi, hu.row i (hnumbering ▸ hi)]
  refine Array.ext hsize fun k hku hkt => ?_
  have hk : k < n + 1 := ht.row i hi ▸ hkt
  have hentry := hagree.entry i k (Nat.le_of_lt_succ hk)
  simpa [entry, Array.getD_eq_getD_getElem?, hku, hkt] using hentry

/-- **A table is known** by the grammar and the greatest length, but for the room in its rows. -/
theorem Counts.eq_of_maxLength_eq (ht : t.Counts g) (hu : u.Counts g)
    (hlength : u.maxLength = t.maxLength) : u = { t with capacity := u.capacity } := by
  have hnumbering := ht.numbering_eq hu
  have hagree := ht.agree hu (Nat.le_refl t.maxLength) hlength.ge
  have htshaped := ht.shaped
  have hushaped : u.Shaped t.maxLength := hlength ▸ hu.shaped
  have hsize : u.numbering.size = t.numbering.size := congrArg Numbering.size hnumbering
  have hrules : u.rules = t.rules := by
    refine eq_of_getElem?_eq (hushaped.rules.trans hsize) htshaped.rules fun i hi => ?_
    rw [hushaped.getElem?_rules (hsize ▸ hi), htshaped.getElem?_rules hi, hagree.rulesOf]
  have hrows : u.rows = t.rows := by
    refine eq_of_getElem?_eq (hushaped.rows.trans hsize) htshaped.rows fun i hi => ?_
    rw [hushaped.getElem?_rows (hsize ▸ hi), htshaped.getElem?_rows hi,
      htshaped.rowOf_eq hushaped hnumbering hagree hi]
  cases t
  cases u
  simp_all

/-! ### Tables that calls leave -/

theorem maxLength_le_extend (t : DerivationTable) (n : Nat) :
    t.maxLength ≤ (t.extend n).maxLength := by
  unfold DerivationTable.extend
  split
  · exact Nat.le_refl _
  · next hn => exact Nat.le_of_lt (Nat.lt_of_not_le hn)

theorem maxLength_le_of_extend? (hu : t.extend? n = some u) : t.maxLength ≤ u.maxLength := by
  obtain rfl := eq_extend_of_extend? hu
  exact t.maxLength_le_extend n

theorem maxLength_le_of_runCalls {calls : List TableCall} (hu : t.runCalls calls = some u) :
    t.maxLength ≤ u.maxLength :=
  runCalls_induct (P := fun v => t.maxLength ≤ v.maxLength)
    (fun hle hext => hle.trans (maxLength_le_of_extend? hext)) (Nat.le_refl _) hu

/-- **A table that calls have left**, where `t₀` was the first one. -/
structure Regular (t₀ t : DerivationTable) : Prop where
  /-- There is a row for each nonterminal, with a place for each length up to the greatest one. -/
  shaped : t.Shaped t.maxLength
  /-- Nothing that an extension reads or writes is out of range. -/
  extend (n : Nat) : t.extendInRange? n = some (t.extend n)
  /-- The count of a nonterminal is read in range. -/
  entry (n : Nat) {i : Nat} (hi : i < t.numbering.size) :
    (t.extend n).countAt? i n = some ((t.extend n).entry i n)
  /-- The count of a binary production is read in range. -/
  splitSum (n : Nat) {i : Nat} {bc : Nat × Nat} (hbc : bc ∈ (t.rulesOf i).pairs) :
    (t.extend n).splitSum? bc.1 bc.2 n = some ((t.extend n).splitSum bc.1 bc.2 n)
  /-- One extension of the first table makes the same table, but for the room in the rows. -/
  eq_extend : t = { t₀.extend t.maxLength with capacity := t.capacity }

theorem Counts.regular {t₀ : DerivationTable} (h₀ : t₀.Counts g) (h : t.Counts g)
    (hle : t₀.maxLength ≤ t.maxLength) : Regular t₀ t where
  shaped := h.shaped
  extend n := h.shaped.extendInRange?_eq h.closed n
  entry n i hi := by
    obtain ⟨hshaped, hn⟩ := h.shaped.extend n
    exact hshaped.countAt?_eq (t.numbering_extend n ▸ hi) hn
  splitSum n i bc hbc := by
    obtain ⟨hshaped, hn⟩ := h.shaped.extend n
    obtain ⟨hb, hc⟩ := h.closed i bc hbc
    rw [← t.numbering_extend n] at hb hc
    exact hshaped.splitSum?_eq hb hc (Nat.le_succ_of_le hn)
  eq_extend := by
    obtain ⟨hc, hmax⟩ := h₀.extend t.maxLength
    exact hc.eq_of_maxLength_eq h (by omega)

/-- **Tables do not depend on their history**, but for the room in their rows.  Every table that
calls leave has full rows and no access out of range, and it is the one that a single extension
makes; calls that follow only add counts for greater lengths.  An extension is refused exactly if
the rows do not have the places, and double their capacity or the places themselves exceed the
limit.  So calls with lengths up to half the limit are all answered. -/
theorem runCalls_eq_extend {t₀ : DerivationTable} (h : ofGrammar? g = some t₀)
    (calls : List TableCall) :
    ((∀ call ∈ calls, 2 * call.length ≤ sequenceLimit) → ∃ t, t₀.runCalls calls = some t) ∧
      ∀ t, t₀.runCalls calls = some t → Regular t₀ t ∧
        t.Allocated ∧
        (∀ n, t.extend? n = none ↔
          t.capacity ≤ n ∧ sequenceLimit < max (2 * t.capacity) (n + 1)) ∧
        ∀ later u, t.runCalls later = some u → t.maxLength ≤ u.maxLength ∧
          ∀ i n, n ≤ t.maxLength → u.entry i n = t.entry i n := by
  obtain ⟨-, rfl⟩ := ofGrammar?_eq_some_iff.1 h
  have hc₀ := counts_ofGrammar g
  have hrows₀ := allocated_ofGrammar g
  refine ⟨hrows₀.exists_runCalls, fun t ht => ?_⟩
  have hc := hc₀.runCalls ht
  have hrows := hrows₀.runCalls ht
  refine ⟨hc₀.regular hc (maxLength_le_of_runCalls ht), hrows, fun n => ?_, fun later u hu => ?_⟩
  · rw [hrows.extend?_eq_none_iff, fits_iff hrows.capacity_le, not_or, not_lt, not_le]
  · have hle := maxLength_le_of_runCalls hu
    exact ⟨hle, fun i n hn =>
      (hc.agree (hc.runCalls hu) hn (hn.trans hle)).entry i n (Nat.le_refl n)⟩

/-- Two extensions and a production that is counted make the table that one extension makes. -/
theorem runCalls_eq_extend_bracketings : ∃ t,
    ofGrammar? Grammar.bracketings = some (ofGrammar Grammar.bracketings) ∧
      (ofGrammar Grammar.bracketings).runCalls [.extend 3, .count ⟨"S"⟩ 5, .countProduction
        ⟨⟨"S"⟩, [.nonterminal ⟨"S"⟩, .nonterminal ⟨"S"⟩]⟩ 4] = some t ∧
      t.counts? ⟨"S"⟩ = some [0, 1, 1, 2, 5, 14] ∧
      Regular (ofGrammar Grammar.bracketings) t := by
  let calls : List TableCall := [.extend 3, .count ⟨"S"⟩ 5, .countProduction
    ⟨⟨"S"⟩, [.nonterminal ⟨"S"⟩, .nonterminal ⟨"S"⟩]⟩ 4]
  obtain ⟨hanswered, hregular⟩ := runCalls_eq_extend (g := Grammar.bracketings) rfl calls
  obtain ⟨t, ht⟩ := hanswered (by decide)
  have hcounts : ((ofGrammar Grammar.bracketings).runCalls calls).map (·.counts? ⟨"S"⟩) =
      some (some [0, 1, 1, 2, 5, 14]) := by decide +kernel
  rw [ht] at hcounts
  exact ⟨t, rfl, ht, Option.some.inj hcounts, (hregular t ht).1⟩

/-- A length that is a machine word may be one that there is no room for: there is no table after
the call. -/
theorem runCalls_eq_none_letter : 2 ^ 60 < 2 ^ 64 - 1 ∧
    ofGrammar? Grammar.letter = some (ofGrammar Grammar.letter) ∧
      (ofGrammar Grammar.letter).runCalls [.extend (2 ^ 60)] = none :=
  ⟨by decide, rfl, rfl⟩

end DerivationTable

end GrammarSampler
