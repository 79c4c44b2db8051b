import GrammarSampler.Number.Word
import GrammarSampler.Random.Source

/-!
# Uniform draws

Draws of a number from a range of machine words (`Source.inRange`) and from the numbers below any
bound (`Source.below`).  Both reject words that would favour some numbers, and take new ones.
-/

namespace GrammarSampler

/-- The number of binary digits of `n`. -/
def bitLength (n : Nat) : Nat := if n = 0 then 0 else Nat.log2 n + 1

namespace Source

/-- The last low half that is accepted when words are multiplied by `range`: the low halves up to it
are a multiple of `range` in number. -/
def zone (range : Nat) : Nat := (range <<< (64 - bitLength range)) - 1

/-- One word, multiplied by `range`: the high half of the product, if the low half is accepted. -/
def scaled (range : Nat) (s : Source) : Option Nat × Source :=
  let (word, s) := s.next
  let product := word.toNat * range
  (if product % wordCount ≤ zone range then some (product / wordCount) else none, s)

/-- A number from `lo` to `hi`, both words. -/
def inRange (s : Source) (lo hi : Nat) : Nat × Source :=
  let range := (hi - lo + 1) % wordCount
  if range = 0 then
    let (word, s) := s.next
    (word.toNat, s)
  else
    let (k, s) := retry (scaled range) 0 s.patience s
    (lo + k, s)

/-- The next `n` words of 32 bits.  Each word of the source makes two, the low half first; for an
odd last one only the high half is used. -/
def halfWords : Nat → Source → List Nat × Source
  | 0, s => ([], s)
  | 1, s =>
    let (word, s) := s.next
    ([word.toNat / halfWordCount], s)
  | n + 2, s =>
    let (word, s) := s.next
    let (rest, s) := halfWords n s
    (word.toNat % halfWordCount :: word.toNat / halfWordCount :: rest, s)

/-- The number with the given words of 32 bits, the lowest first. -/
def ofHalfWords : List Nat → Nat
  | [] => 0
  | w :: ws => w + halfWordCount * ofHalfWords ws

/-- A number of up to `n` binary digits: as many words of 32 bits as it takes, the last of which
loses its lowest bits. -/
def digits (s : Source) (n : Nat) : Nat × Source :=
  let count := (n + 31) / 32
  let (words, s) := halfWords count s
  let low := 1 <<< (32 * (count - 1))
  let value := ofHalfWords words
  (value % low + low * ((value / low) >>> (32 * count - n)), s)

/-- A number with as many binary digits as `bound`, if it is below `bound`. -/
def digitsBelow (bound : Nat) (s : Source) : Option Nat × Source :=
  let (k, s) := s.digits (bitLength bound)
  (if k < bound then some k else none, s)

/-- A number below `bound`, which is positive. -/
def below (s : Source) (bound : Nat) : Nat × Source :=
  retry (digitsBelow bound) 0 s.patience s

end Source

end GrammarSampler
