/-!
# Sources of random words

A source yields 64-bit words.  It is a xoshiro256++ generator, whose state is filled from a seed by
a PCG32 generator, or a script: a list of words, followed by zeros.
-/

namespace GrammarSampler

/-- A source of 64-bit words. -/
inductive Source where
  /-- A xoshiro256++ generator with these four words of state. -/
  | xoshiro (s0 s1 s2 s3 : UInt64)
  /-- The given words, then zeros. -/
  | script (words : List UInt64)
  deriving DecidableEq, Inhabited

/-- `x` rotated to the left by `k` bits, for `0 < k < 64`. -/
def rotateLeft64 (x k : UInt64) : UInt64 := x <<< k ||| x >>> (64 - k)

/-- `x` rotated to the right by `k` bits, for `k < 32`. -/
def rotateRight32 (x k : UInt32) : UInt32 := x >>> k ||| x <<< ((32 - k) % 32)

namespace Source

/-- The next state of the seeding generator. -/
def seedStep (state : UInt64) : UInt64 := state * 6364136223846793005 + 11634580027462260723

/-- The 32-bit word that a state of the seeding generator yields. -/
def seedWord (state : UInt64) : UInt32 :=
  rotateRight32 (((state >>> 18) ^^^ state) >>> 27).toUInt32 (state >>> 59).toUInt32

/-- The 64-bit word of two states of the seeding generator, the earlier one in the low half. -/
def seedPair (low high : UInt64) : UInt64 :=
  (seedWord low).toUInt64 ||| (seedWord high).toUInt64 <<< 32

/-- The generator with the given seed. -/
def seeded (seed : UInt64) : Source :=
  let a0 := seedStep seed
  let a1 := seedStep a0
  let b0 := seedStep a1
  let b1 := seedStep b0
  let c0 := seedStep b1
  let c1 := seedStep c0
  let d0 := seedStep c1
  let d1 := seedStep d0
  xoshiro (seedPair a0 a1) (seedPair b0 b1) (seedPair c0 c1) (seedPair d0 d1)

/-- The next word, and the source after it. -/
def next : Source → UInt64 × Source
  | xoshiro s0 s1 s2 s3 =>
    let u2 := s2 ^^^ s0
    let u3 := s3 ^^^ s1
    (rotateLeft64 (s0 + s3) 23 + s0,
      xoshiro (s0 ^^^ u3) (s1 ^^^ u2) (u2 ^^^ s1 <<< 17) (rotateLeft64 u3 45))
  | script [] => (0, script [])
  | script (w :: ws) => (w, script ws)

/-- The number of words after which a repeated draw is given up.  All draws accept words of zeros,
so that a script is never given up. -/
def patience : Source → Nat
  | xoshiro .. => 1 <<< 62
  | script ws => ws.length + 1

/-- Repeats `attempt` until it yields a value, up to `n` times; then the value is `fallback`. -/
def retry {α : Type} (attempt : Source → Option α × Source) (fallback : α) :
    Nat → Source → α × Source
  | 0, s => (fallback, s)
  | n + 1, s =>
    match attempt s with
    | (some a, s) => (a, s)
    | (none, s) => retry attempt fallback n s

end Source

end GrammarSampler
