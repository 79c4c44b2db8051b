import GrammarSampler.Proofs.WeightedDraws
import Mathlib.Algebra.BigOperators.Field
import Mathlib.Algebra.BigOperators.Intervals
import Mathlib.Algebra.Order.Field.Rat

/-!
# Computations that draw numbers

A `Drawing` asks for one number after the other, each below a given bound, and goes on with the
number that it gets.  `Drawing.run` takes the numbers from a source.  `Drawing.expect` averages over
all of them: it is the expected value when every draw is uniform below its bound, whatever was drawn
before.

A weighted choice draws a point below the sum of the weights, so that each index counts with as many
points as its weight says (`expect_weighted`).
-/

namespace GrammarSampler

/-- The two ways to draw one of the first numbers: a point below a sum of weights, or a place in a
list. -/
inductive DrawKind where
  | point
  | place

/-- One of the first `n` numbers. -/
def Source.draw (s : Source) : DrawKind → Nat → Nat × Source
  | .point, n => s.below n
  | .place, n => s.inRange 0 (n - 1)

/-- A computation that draws numbers and yields a value in the end. -/
inductive Drawing (α : Type) where
  | pure (a : α)
  | draw (kind : DrawKind) (n : Nat) (next : Nat → Drawing α)

namespace Drawing

variable {α β γ : Type}

/-- Goes on with the value of another computation. -/
def bind (d : Drawing α) (f : α → Drawing β) : Drawing β :=
  match d with
  | pure a => f a
  | draw kind n next => draw kind n fun k => (next k).bind f

/-- The value when the numbers come from a source, and the source after them. -/
def run : Drawing α → Source → α × Source
  | pure a, s => (a, s)
  | draw kind n next, s => (next (s.draw kind n).1).run (s.draw kind n).2

/-- **The expected value** of `f` when every number is drawn uniformly and independently. -/
def expect (f : α → ℚ) : Drawing α → ℚ
  | pure a => f a
  | draw _ n next => (∑ k ∈ Finset.range n, (next k).expect f) / n

/-- The probability of a value. -/
def probability [DecidableEq α] (d : Drawing α) (a : α) : ℚ :=
  d.expect fun b => if b = a then 1 else 0

/-- Draws a place in a list of `n` entries. -/
def place (n : Nat) (next : Nat → Drawing α) : Drawing α := draw .place n next

/-- Chooses an index with a probability in proportion to its weight. -/
def weighted (ws : List Nat) (next : Nat → Drawing α) : Drawing α :=
  draw .point (total ws) fun r => next (chosenIndex ws r)

/-- Makes a value of those of two computations, the first one first. -/
def both (f : α → β → γ) (d : Drawing α) (e : Drawing β) : Drawing γ :=
  d.bind fun a => e.bind fun b => pure (f a b)

/-! ### Runs -/

theorem run_bind (d : Drawing α) (f : α → Drawing β) (s : Source) :
    (d.bind f).run s = (f (d.run s).1).run (d.run s).2 := by
  induction d generalizing s with
  | pure a => rfl
  | draw kind n next ih => exact ih _ _

theorem run_both (f : α → β → γ) (d : Drawing α) (e : Drawing β) (s : Source) :
    (both f d e).run s = (f (d.run s).1 (e.run (d.run s).2).1, (e.run (d.run s).2).2) := by
  rw [both, run_bind, run_bind]
  rfl

/-! ### Expected values -/

theorem expect_bind (d : Drawing α) (h : α → Drawing β) (f : β → ℚ) :
    (d.bind h).expect f = d.expect fun a => (h a).expect f := by
  induction d with
  | pure a => rfl
  | draw kind n next ih =>
    rw [bind, expect, expect]
    simp only [ih]

theorem expect_mul (d : Drawing α) (f : α → ℚ) (c : ℚ) :
    (d.expect fun a => f a * c) = d.expect f * c := by
  induction d with
  | pure a => rfl
  | draw kind n next ih =>
    simp only [expect, ih]
    rw [← Finset.sum_mul, div_mul_eq_mul_div]

theorem expect_zero (d : Drawing α) : (d.expect fun _ => (0 : ℚ)) = 0 := by
  induction d with
  | pure a => rfl
  | draw kind n next ih => simp [expect, ih]

/-- The values of two computations are independent. -/
theorem probability_both [DecidableEq α] [DecidableEq β] [DecidableEq γ] {f : α → β → γ}
    (hf : ∀ a b a' b', f a b = f a' b' → a = a' ∧ b = b') (d : Drawing α) (e : Drawing β) (a : α)
    (b : β) : (both f d e).probability (f a b) = d.probability a * e.probability b := by
  have hsplit : ∀ a' b', (if f a' b' = f a b then (1 : ℚ) else 0) =
      (if b' = b then 1 else 0) * if a' = a then 1 else 0 := by
    intro a' b'
    by_cases hb : b' = b
    · by_cases ha : a' = a
      · simp [ha, hb]
      · rw [if_neg fun h => ha (hf _ _ _ _ h).1, if_neg ha, mul_zero]
    · rw [if_neg fun h => hb (hf _ _ _ _ h).2, if_neg hb, zero_mul]
  simp only [probability, both, expect_bind, expect, hsplit, expect_mul]
  rw [← expect_mul]
  simp only [mul_comm]

/-- A value that is not made of two values is not drawn. -/
theorem probability_both_eq_zero [DecidableEq γ] {f : α → β → γ} {c : γ} (hc : ∀ a b, f a b ≠ c)
    (d : Drawing α) (e : Drawing β) : (both f d e).probability c = 0 := by
  simp only [probability, both, expect_bind, expect, hc, if_false, expect_zero]

/-! ### Weighted choices -/

/-- Each index is chosen at as many points as its weight says. -/
theorem sum_chosenIndex (ws : List Nat) (F : Nat → ℚ) :
    ∑ r ∈ Finset.range (total ws), F (chosenIndex ws r) =
      ∑ k ∈ Finset.range ws.length, ws.getD k 0 * F k := by
  induction ws generalizing F with
  | nil => rfl
  | cons w ws ih =>
    have hfirst : ∀ r ∈ Finset.range w, F (chosenIndex (w :: ws) r) = F 0 := by
      intro r hr
      rw [chosenIndex, coveringIndex_cons, if_pos (Finset.mem_range.1 hr), Option.getD_some]
    have hrest : ∀ r ∈ Finset.range (total ws),
        F (chosenIndex (w :: ws) (w + r)) = F (chosenIndex ws r + 1) := by
      intro r hr
      obtain ⟨k, hk⟩ := exists_coveringIndex (Finset.mem_range.1 hr)
      rw [chosenIndex, chosenIndex, coveringIndex_cons, if_neg (by omega),
        Nat.add_sub_cancel_left, hk]
      rfl
    rw [total, Finset.sum_range_add, Finset.sum_congr rfl hfirst, Finset.sum_congr rfl hrest,
      ih fun k => F (k + 1), List.length_cons, Finset.sum_range_succ', add_comm]
    simp

theorem expect_weighted (ws : List Nat) (next : Nat → Drawing α) (f : α → ℚ) :
    (weighted ws next).expect f =
      (∑ k ∈ Finset.range ws.length, ws.getD k 0 * (next k).expect f) / total ws := by
  rw [weighted, expect, sum_chosenIndex ws fun k => (next k).expect f]

end Drawing

end GrammarSampler
