/-!
# Sets of ids

A set of ids below a fixed size, as one bit per id.  The view of a set is `has`: every operation is
described by the ids that the new set has.
-/

namespace GrammarSampler

/-- Bit `i` of `bits` tells whether the id `i` is in the set; no bit from `size` on is set. -/
structure IdSet where
  size : Nat
  bits : Nat
  bits_lt : bits < 1 <<< size

namespace IdSet

theorem or_bit_lt {m n i : Nat} (h : m < 1 <<< n) (hi : i < n) : m ||| 1 <<< i < 1 <<< n := by
  rw [Nat.one_shiftLeft] at h
  rw [Nat.one_shiftLeft, Nat.one_shiftLeft]
  exact Nat.or_lt_two_pow h (Nat.pow_lt_pow_right (by omega) hi)

theorem xor_and_lt {m k n : Nat} (h : m < 1 <<< n) : m ^^^ (m &&& k) < 1 <<< n := by
  rw [Nat.one_shiftLeft] at h ⊢
  exact Nat.xor_lt_two_pow h (Nat.lt_of_le_of_lt Nat.and_le_left h)

theorem zero_lt_bit (n : Nat) : 0 < 1 <<< n := by
  rw [Nat.one_shiftLeft]
  exact Nat.two_pow_pos n

/-- No id below `size` is in the set. -/
def empty (size : Nat) : IdSet := ⟨size, 0, zero_lt_bit size⟩

/-- All ids below `size` are in the set. -/
def full (size : Nat) : IdSet :=
  ⟨size, (1 <<< size) - 1, Nat.sub_lt (zero_lt_bit size) Nat.one_pos⟩

/-- The id `i` is in the set.  An id from `size` on is in no set. -/
def has (s : IdSet) (i : Nat) : Bool := s.bits.testBit i

/-- Adds the id `i`. -/
def insert (s : IdSet) (i : Nat) (h : i < s.size) : IdSet :=
  ⟨s.size, s.bits ||| 1 <<< i, or_bit_lt s.bits_lt h⟩

/-- Removes the id `i`. -/
def erase (s : IdSet) (i : Nat) : IdSet :=
  ⟨s.size, s.bits ^^^ (s.bits &&& 1 <<< i), xor_and_lt s.bits_lt⟩

/-- Adds or removes the id `i`; there is no such set if `i` is too large. -/
def set? (s : IdSet) (i : Nat) (present : Bool) : Option IdSet :=
  if h : i < s.size then some (if present then s.insert i h else s.erase i) else none

/-- Adds the id `i`, if it is below the size. -/
def add (s : IdSet) (i : Nat) : IdSet := if h : i < s.size then s.insert i h else s

/-- The ids in the set, in increasing order. -/
def toList (s : IdSet) : List Nat := (List.range s.size).filter s.has

/-- The number of ids in the set. -/
def count (s : IdSet) : Nat := s.toList.length

@[simp] theorem size_empty (n : Nat) : (empty n).size = n := rfl

@[simp] theorem size_insert (s : IdSet) (i : Nat) (h : i < s.size) :
    (s.insert i h).size = s.size := rfl

@[simp] theorem size_add (s : IdSet) (i : Nat) : (s.add i).size = s.size := by
  unfold add
  split <;> rfl

@[simp] theorem has_empty (n i : Nat) : (empty n).has i = false := by simp [empty, has]

@[simp] theorem has_full (n i : Nat) : (full n).has i = decide (i < n) := by
  show ((1 <<< n) - 1).testBit i = _
  rw [Nat.one_shiftLeft, Nat.testBit_two_pow_sub_one]

theorem lt_size_of_has {s : IdSet} {i : Nat} (h : s.has i = true) : i < s.size := by
  refine Nat.lt_of_not_le fun hle => ?_
  have hs := s.bits_lt
  rw [Nat.one_shiftLeft] at hs
  have hlt := Nat.lt_of_lt_of_le hs (Nat.pow_le_pow_right (by omega) hle)
  simp [has, Nat.testBit_lt_two_pow hlt] at h

@[simp] theorem has_insert (s : IdSet) (i j : Nat) (h : i < s.size) :
    (s.insert i h).has j = (s.has j || decide (i = j)) := by
  show (s.bits ||| 1 <<< i).testBit j = _
  rw [Nat.one_shiftLeft, Nat.testBit_or, Nat.testBit_two_pow, has]

@[simp] theorem has_erase (s : IdSet) (i j : Nat) :
    (s.erase i).has j = (s.has j && !decide (i = j)) := by
  show (s.bits ^^^ (s.bits &&& 1 <<< i)).testBit j = _
  rw [Nat.one_shiftLeft, Nat.testBit_xor, Nat.testBit_and, Nat.testBit_two_pow, has]
  cases s.bits.testBit j <;> simp

theorem has_add (s : IdSet) (i j : Nat) :
    (s.add i).has j = (s.has j || decide (i = j ∧ i < s.size)) := by
  unfold add
  split
  · next h => simp [h]
  · next h => simp [h]

theorem mem_toList {s : IdSet} {i : Nat} : i ∈ s.toList ↔ s.has i = true := by
  simpa [toList] using lt_size_of_has

end IdSet

end GrammarSampler
