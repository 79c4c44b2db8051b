import GrammarSampler.Number.Word

/-!
# Relations between ids

A square bit matrix relates ids below a fixed size.  A row is a bit mask, so that one step of the
transitive closure treats a whole row at once: the row of a pivot is added to every row that relates
to the pivot (`throughPivot`), for each pivot in turn.

A pair of ids is also found by its place in the rows laid end to end (`cell?`), each filled up to
whole blocks of bits.  The bits that fill a row take part in the closure and are never listed.
-/

namespace GrammarSampler

/-- Bit `j` of row `i` tells whether `i` is related to `j`. -/
structure IdRelation where
  rows : Array Nat

namespace IdRelation

/-- The relation on ids below `size` that relates none of them. -/
def empty (size : Nat) : IdRelation := ⟨Array.replicate size 0⟩

def size (r : IdRelation) : Nat := r.rows.size

/-- `i` is related to `j`. -/
def has (r : IdRelation) (i j : Nat) : Bool := (r.rows.getD i 0).testBit j

/-- Relates `i` to `j`, if `i` is below the size. -/
def insert (r : IdRelation) (i j : Nat) : IdRelation := ⟨r.rows.modify i (· ||| 1 <<< j)⟩

/-- Relates `i` to `j` no longer. -/
def erase (r : IdRelation) (i j : Nat) : IdRelation :=
  ⟨r.rows.modify i fun row => row ^^^ (row &&& 1 <<< j)⟩

/-- The ids that `i` is related to, in increasing order. -/
def row (r : IdRelation) (i : Nat) : List Nat := (List.range r.size).filter (r.has i)

/-- All rows, in order. -/
def toLists (r : IdRelation) : List (List Nat) := (List.range r.size).map r.row

/-- The number of bits in a block. -/
def blockSize : Nat := 32

/-- The number of bits that a row takes: whole blocks, as few as hold the size. -/
def width (r : IdRelation) : Nat := (r.size + (blockSize - 1)) / blockSize * blockSize

/-- The row and the bit at which `i` and `j` meet when the rows are laid end to end.  There is none
past the last row; a `j` past the end of its row stands in a row further down. -/
def cell? (r : IdRelation) (i j : Nat) : Option (Nat × Nat) :=
  let place := i * r.width + j
  if place < r.size * r.width then some (place / r.width, place % r.width) else none

/-- `has`, at the cell of `i` and `j`. -/
def has? (r : IdRelation) (i j : Nat) : Option Bool :=
  (r.cell? i j).map fun c => r.has c.1 c.2

/-- Relates `i` to `j` or not, at their cell. -/
def set? (r : IdRelation) (i j : Nat) (related : Bool) : Option IdRelation :=
  (r.cell? i j).map fun c => if related then r.insert c.1 c.2 else r.erase c.1 c.2

/-- `row`, for an `i` below the size.  Where rows take no bits, each `i` that is not the last word
has an empty one. -/
def row? (r : IdRelation) (i : Nat) : Option (List Nat) :=
  if i < r.size ∨ r.size = 0 ∧ i + 1 < wordCount then some (r.row i) else none

/-- Relates to all that `pivot` is related to every id that is related to `pivot`. -/
def throughPivot (r : IdRelation) (pivot : Nat) : IdRelation :=
  let step := r.rows.getD pivot 0
  ⟨r.rows.map fun row => if row.testBit pivot then row ||| step else row⟩

/-- The transitive closure: one step for every pivot. -/
def transitive (r : IdRelation) : IdRelation := (List.range r.size).foldl throughPivot r

/-- Relates every id to itself. -/
def reflexive (r : IdRelation) : IdRelation :=
  (List.range r.size).foldl (fun r i => r.insert i i) r

@[simp] theorem size_empty (n : Nat) : (empty n).size = n := by simp [empty, size]

@[simp] theorem size_insert (r : IdRelation) (i j : Nat) : (r.insert i j).size = r.size := by
  simp [insert, size]

@[simp] theorem size_throughPivot (r : IdRelation) (p : Nat) :
    (r.throughPivot p).size = r.size := by
  simp [throughPivot, size]

@[simp] theorem size_erase (r : IdRelation) (i j : Nat) : (r.erase i j).size = r.size := by
  simp [erase, size]

/-- Ids below the size meet at the bit of their own row. -/
theorem cell?_eq_some {r : IdRelation} {i j : Nat} (hi : i < r.size) (hj : j < r.size) :
    r.cell? i j = some (i, j) := by
  have hw : j < r.width := by unfold width blockSize; omega
  have hp : i * r.width + j < r.size * r.width := calc
    i * r.width + j < (i + 1) * r.width := by rw [Nat.succ_mul]; omega
    _ ≤ r.size * r.width := Nat.mul_le_mul_right _ hi
  have hd : (i * r.width + j) / r.width = i := by
    rw [Nat.mul_comm, Nat.mul_add_div (by omega), Nat.div_eq_of_lt hw, Nat.add_zero]
  have hm : (i * r.width + j) % r.width = j := by
    rw [Nat.mul_comm, Nat.mul_add_mod, Nat.mod_eq_of_lt hw]
  simp only [cell?, if_pos hp, hd, hm]

theorem getD_modify (rows : Array Nat) (i k : Nat) (f : Nat → Nat) :
    (rows.modify i f).getD k 0 =
      if i = k ∧ k < rows.size then f (rows.getD k 0) else rows.getD k 0 := by
  by_cases hk : k < rows.size
  · by_cases hi : i = k <;> simp [hk, hi, Array.getElem_modify]
  · simp [hk]

/-- Insertion relates the one pair more. -/
theorem has_insert (r : IdRelation) (i j k l : Nat) :
    (r.insert i j).has k l = (r.has k l || decide (i = k ∧ j = l ∧ k < r.size)) := by
  unfold has insert
  rw [getD_modify]
  by_cases h : i = k ∧ k < r.rows.size
  · rw [if_pos h, Nat.testBit_or, Nat.one_shiftLeft, Nat.testBit_two_pow]
    simp [h, size]
  · rw [if_neg h]
    have : ¬(i = k ∧ j = l ∧ k < r.size) := fun ⟨hi, _, hk⟩ => h ⟨hi, hk⟩
    simp [this]

/-- A pivot step relates `i` to all that `i` reaches by itself or through the pivot. -/
theorem has_throughPivot (r : IdRelation) (p i j : Nat) :
    (r.throughPivot p).has i j = (r.has i j || r.has i p && r.has p j) := by
  unfold has throughPivot
  by_cases hi : i < r.rows.size
  · by_cases hp : r.rows[i].testBit p <;> simp [hi, hp]
  · simp [hi]

@[simp] theorem has_empty (n i j : Nat) : (empty n).has i j = false := by
  by_cases h : i < n <;> simp [empty, has, h]

end IdRelation

end GrammarSampler
