import GrammarSampler.Sampling.WeightedChoice
import Mathlib.Order.Interval.Finset.Nat

/-!
# What draws and weighted choices yield

A draw from a range lies in the range, whatever the words of the source are (`Source.below_lt`,
`Source.inRange_lt`, `Source.inRange_le`): a word that is not accepted is followed by another one,
and the value when the words are given up is 0.

A point below the sum of all weights lies in the interval of exactly one of them
(`coveringIndex_eq_some_iff`, `exists_coveringIndex`), and that weight is positive; so a weighted
choice succeeds when the weights add up to what is expected (`chooseWeighted_eq`), and it is refused
before anything is drawn when they do not (`chooseWeighted_cases`).
-/

namespace GrammarSampler

/-! ### Draws -/

namespace Source

theorem retry_of_forall {α : Type} {attempt : Source → Option α × Source} {fallback : α}
    {P : α → Prop} (hattempt : ∀ s a, (attempt s).1 = some a → P a) (hfallback : P fallback)
    (n : Nat) (s : Source) : P (retry attempt fallback n s).1 := by
  induction n generalizing s with
  | zero => exact hfallback
  | succ n ih =>
    rw [retry]
    split
    · next a s' h => exact hattempt s a (by rw [h])
    · exact ih _

/-- A number below a positive bound is drawn. -/
theorem below_lt (s : Source) {bound : Nat} (h : 0 < bound) : (s.below bound).1 < bound := by
  refine retry_of_forall (P := (· < bound)) (fun s k hk => ?_) h _ s
  unfold digitsBelow at hk
  simp only at hk
  split at hk
  · next hlt => exact Option.some.inj hk ▸ hlt
  · cases hk

theorem scaled_lt {range k : Nat} {s : Source} (hrange : 0 < range)
    (h : (s.scaled range).1 = some k) : k < range := by
  unfold scaled at h
  simp only at h
  split at h
  · obtain rfl := Option.some.inj h
    refine Nat.div_lt_of_lt_mul ?_
    exact Nat.mul_lt_mul_of_pos_right (UInt64.toNat_lt _) hrange
  · cases h

/-- One of the first `n` numbers is drawn.  A range of a multiple of all words takes a word as it
is. -/
theorem inRange_lt (s : Source) {n : Nat} (h : 0 < n) : (s.inRange 0 (n - 1)).1 < n := by
  have hn : n - 1 - 0 + 1 = n := by omega
  have hle : n % wordCount ≤ n := Nat.mod_le ..
  unfold inRange
  simp only [hn]
  split
  · next h0 =>
    have hword : wordCount ≤ n := Nat.le_of_dvd h (Nat.dvd_of_mod_eq_zero h0)
    exact Nat.lt_of_lt_of_le (UInt64.toNat_lt _) hword
  · next h0 =>
    rw [Nat.zero_add]
    have hpos : 0 < n % wordCount := Nat.pos_of_ne_zero h0
    exact Nat.lt_of_lt_of_le
      (retry_of_forall (P := (· < n % wordCount)) (fun s k hk => scaled_lt hpos hk) hpos _ s) hle

section bounds

variable (s : Source) {lo hi : Nat}

/-- A number between two words is drawn. -/
theorem inRange_le (h : lo ≤ hi) (hword : hi < wordCount - 1) : (s.inRange lo hi).1 ≤ hi := by
  have hrange : (hi - lo + 1) % wordCount = hi - lo + 1 := Nat.mod_eq_of_lt (by omega)
  have hlt : (retry (scaled (hi - lo + 1)) 0 s.patience s).1 < hi - lo + 1 :=
    retry_of_forall (P := (· < hi - lo + 1)) (fun _ _ hk => scaled_lt (Nat.succ_pos _) hk)
      (Nat.succ_pos _) _ s
  unfold inRange
  simp only [hrange, Nat.succ_ne_zero, if_false]
  omega

theorem le_inRange (hword : hi < wordCount - 1) : lo ≤ (s.inRange lo hi).1 := by
  have hrange : (hi - lo + 1) % wordCount = hi - lo + 1 := Nat.mod_eq_of_lt (by omega)
  unfold inRange
  simp only [hrange, Nat.succ_ne_zero, if_false]
  omega

end bounds

end Source

/-! ### Weighted choices -/

/-- Weights and indices that come before shift the search. -/
theorem coveringFrom_add (r i sum j sum' : Nat) (ws : List Nat) :
    coveringFrom (sum + r) (j + i) (sum + sum') ws =
      (coveringFrom r j sum' ws).map (· + i) := by
  induction ws generalizing j sum' with
  | nil => rfl
  | cons w ws ih =>
    rw [coveringFrom, coveringFrom, Nat.add_assoc sum, Nat.add_right_comm j, ih]
    by_cases h : r < sum' + w
    · rw [if_pos h, if_pos (Nat.add_lt_add_left h sum), Option.map_some]
    · rw [if_neg h, if_neg fun h' => h (Nat.lt_of_add_lt_add_left h')]

/-- A point that the first weight does not cover is sought among the others. -/
theorem coveringIndex_cons (w : Nat) (ws : List Nat) (r : Nat) :
    coveringIndex (w :: ws) r =
      if r < w then some 0 else (coveringIndex ws (r - w)).map (· + 1) := by
  rw [coveringIndex, coveringFrom, Nat.zero_add]
  split
  · rfl
  · next h =>
    have hshift := coveringFrom_add (r - w) 1 w 0 0 ws
    rwa [Nat.add_sub_of_le (Nat.not_lt.1 h)] at hshift

/-- **The interval of an index**: the points from the sum of the weights before it on, as many as
its own weight. -/
theorem coveringIndex_eq_some_iff {ws : List Nat} {r k : Nat} :
    coveringIndex ws r = some k ↔
      k < ws.length ∧ total (ws.take k) ≤ r ∧ r < total (ws.take k) + ws.getD k 0 := by
  induction ws generalizing r k with
  | nil => simp [coveringIndex, coveringFrom]
  | cons w ws ih =>
    rw [coveringIndex_cons]
    cases k with
    | zero =>
      split
      · next h => simpa [total] using h
      · next h => simpa [total] using Nat.not_lt.1 h
    | succ k =>
      split
      · next h =>
        refine iff_of_false (by simp) fun hk => ?_
        rw [List.take_succ_cons, total] at hk
        omega
      · next h =>
        simp only [Option.map_eq_some_iff, Nat.add_right_cancel_iff, exists_eq_right, ih,
          List.length_cons, Nat.add_lt_add_iff_right, List.take_succ_cons, total,
          List.getD_cons_succ]
        omega

/-- A point below the sum of all weights lies in some interval. -/
theorem exists_coveringIndex {ws : List Nat} {r : Nat} (h : r < total ws) :
    ∃ k, coveringIndex ws r = some k := by
  induction ws generalizing r with
  | nil => exact absurd h (Nat.not_lt_zero r)
  | cons w ws ih =>
    rw [coveringIndex_cons]
    split
    · exact ⟨0, rfl⟩
    · rw [total] at h
      obtain ⟨k, hk⟩ := ih (r := r - w) (by omega)
      exact ⟨k + 1, by rw [hk]; rfl⟩

/-- The chosen index, which exists for the points that are drawn. -/
def chosenIndex (ws : List Nat) (r : Nat) : Nat := (coveringIndex ws r).getD 0

/-- What is chosen has a positive weight. -/
theorem chosenIndex_spec {ws : List Nat} {r : Nat} (h : r < total ws) :
    coveringIndex ws r = some (chosenIndex ws r) ∧ chosenIndex ws r < ws.length ∧
      0 < ws.getD (chosenIndex ws r) 0 := by
  obtain ⟨k, hk⟩ := exists_coveringIndex h
  have hchosen : chosenIndex ws r = k := by rw [chosenIndex, hk, Option.getD_some]
  obtain ⟨hlt, hle, hr⟩ := coveringIndex_eq_some_iff.1 hk
  exact ⟨by rw [hk, hchosen], hchosen ▸ hlt, by rw [hchosen]; omega⟩

/-- **A weighted choice**, when the weights add up: the index whose interval holds the point that is
drawn. -/
theorem chooseWeighted_eq {ws : List Nat} (h : 0 < total ws) (s : Source) :
    chooseWeighted ws (total ws) s =
      (.ok (chosenIndex ws (s.below (total ws)).1), (s.below (total ws)).2) := by
  obtain ⟨hk, -⟩ := chosenIndex_spec (s.below_lt h)
  unfold chooseWeighted
  rw [if_neg (by omega)]
  simp only [hk]

/-! ### Points and indices -/

/-- The point lies in the interval of the index: the weights before it do not add up to more than
the point, and with its own weight they do. -/
def InInterval (ws : List Nat) (i r : Nat) : Prop :=
  i < ws.length ∧ total (ws.take i) ≤ r ∧ r < total (ws.take (i + 1))

theorem total_take_succ {ws : List Nat} {i : Nat} (h : i < ws.length) :
    total (ws.take (i + 1)) = total (ws.take i) + ws[i] := by
  rw [List.take_succ_eq_append_getElem h, total_append]
  rfl

theorem inInterval_iff {ws : List Nat} {i r : Nat} :
    InInterval ws i r ↔ coveringIndex ws r = some i := by
  rw [coveringIndex_eq_some_iff, InInterval]
  refine and_congr_right fun h => ?_
  rw [total_take_succ h, List.getD_eq_getElem?_getD, List.getElem?_eq_getElem h,
    Option.getD_some]

theorem total_take_le (ws : List Nat) (i : Nat) : total (ws.take i) ≤ total ws := by
  conv => rhs; rw [← List.take_append_drop i ws, total_append]
  exact Nat.le_add_right ..

/-- An index is chosen at as many points as its weight says. -/
theorem card_filter_chosenIndex {ws : List Nat} {i : Nat} (h : i < ws.length) :
    ((Finset.range (total ws)).filter fun r => chosenIndex ws r = i).card = ws[i] := by
  have hinterval : (Finset.range (total ws)).filter (fun r => chosenIndex ws r = i) =
      Finset.Ico (total (ws.take i)) (total (ws.take (i + 1))) := by
    ext r
    rw [Finset.mem_filter, Finset.mem_range, Finset.mem_Ico]
    constructor
    · rintro ⟨hr, rfl⟩
      exact (inInterval_iff.2 (chosenIndex_spec hr).1).2
    · intro hr
      have hlt : r < total ws := Nat.lt_of_lt_of_le hr.2 (total_take_le ws _)
      have hindex := inInterval_iff.1 ⟨h, hr⟩
      rw [(chosenIndex_spec hlt).1] at hindex
      exact ⟨hlt, Option.some.inj hindex⟩
  rw [hinterval, Nat.card_Ico, total_take_succ h, Nat.add_sub_cancel_left]

/-- **Weighted choices are exact.**  A choice is refused exactly when the weights add up to nothing
or not to what is expected, and then nothing is drawn.  Otherwise the point that is drawn is below
the sum, and the choice is the index whose interval holds it.  Every point below the sum lies in the
interval of one index, whose weight is positive, so that the search among the weights always ends at
one; and each index is chosen at as many points as its weight says. -/
theorem chooseWeighted_cases (ws : List Nat) (expected : Nat) (s : Source) :
    ((∃ e, (chooseWeighted ws expected s).1 = .error e) ↔ total ws = 0 ∨ total ws ≠ expected) ∧
    (total ws = 0 ∨ total ws ≠ expected →
      chooseWeighted ws expected s = (.error .weightMismatch, s)) ∧
    (total ws ≠ 0 → total ws = expected →
      (s.below expected).1 < expected ∧
      chooseWeighted ws expected s =
        (.ok (chosenIndex ws (s.below expected).1), (s.below expected).2) ∧
      (∀ r < expected, coveringIndex ws r = some (chosenIndex ws r) ∧
        InInterval ws (chosenIndex ws r) r ∧ (∀ i, InInterval ws i r → i = chosenIndex ws r) ∧
        0 < ws.getD (chosenIndex ws r) 0) ∧
      ∀ i (h : i < ws.length),
        ((Finset.range expected).filter fun r => chosenIndex ws r = i).card = ws[i]) := by
  have hrefused (h : total ws = 0 ∨ total ws ≠ expected) :
      chooseWeighted ws expected s = (.error .weightMismatch, s) := by
    rw [chooseWeighted, if_pos h]
  refine ⟨⟨?_, fun h => ⟨_, congrArg Prod.fst (hrefused h)⟩⟩, hrefused, ?_⟩
  · rintro ⟨e, he⟩
    by_contra h
    obtain ⟨hpos, rfl⟩ := not_or.1 h |>.imp_right not_not.1
    rw [chooseWeighted_eq (Nat.pos_of_ne_zero hpos)] at he
    cases he
  · rintro hpos rfl
    refine ⟨s.below_lt (Nat.pos_of_ne_zero hpos), chooseWeighted_eq (Nat.pos_of_ne_zero hpos) s,
      fun r hr => ?_, fun i hi => card_filter_chosenIndex hi⟩
    obtain ⟨hindex, -, hweight⟩ := chosenIndex_spec hr
    refine ⟨hindex, inInterval_iff.2 hindex, fun i hi => ?_, hweight⟩
    exact Option.some.inj ((inInterval_iff.1 hi).symm.trans hindex)

/-- The point 2 lies in the interval of the second weight, the first one being empty. -/
example : chooseWeighted [0, 3, 0, 2] 5 (.script [0x4000000000000000]) = (.ok 1, .script []) := by
  decide +kernel

end GrammarSampler
