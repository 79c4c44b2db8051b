/-!
# Machine words

How many machine words there are.  Lengths and seeds are words of 64 bits, and so are addresses:
they bound how many numbers or texts a sequence in memory can hold.
-/

namespace GrammarSampler

/-- The number of words of 64 bits. -/
def wordCount : Nat := 0x10000000000000000

/-- The number of words of 32 bits. -/
def halfWordCount : Nat := 0x100000000

/-- The greatest number of entries of a sequence.  An entry takes three words, which are 24 bytes,
and a sequence takes less than half of the addresses. -/
def sequenceLimit : Nat := (wordCount / 2 - 1) / 24

end GrammarSampler
