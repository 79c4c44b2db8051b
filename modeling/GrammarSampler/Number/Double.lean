/-!
# Numbers as doubles

The double for a natural number, and the exact value of a double as a whole multiple of a power of
two.  A number of at most 64 bits goes to the nearest double, and a half to the even one.  A greater
number is first cut to its 64 leading bits (`leadingBits`), and those are rounded.
-/

namespace GrammarSampler.Number

/-- The quotient of `n` by the `k`th power of two, rounded to the nearest whole number; a half goes
to the even one. -/
def roundedShift (n k : Nat) : Nat :=
  let d := 1 <<< k
  let q := n / d
  let r := n % d
  if 2 * r > d ∨ (2 * r = d ∧ q % 2 = 1) then q + 1 else q

/-- One of the `words` lowest words of `n` is not zero in its last `width` bits. -/
def hasLowBits (n words width : Nat) : Bool :=
  (List.range words).any fun i => (n >>> (64 * i)) % (1 <<< width) != 0

/-- The 64 leading bits of `n`, or all if there are no more.  For a number of several words the last
of them also stands for the bits cut off, so that a half with more behind it is rounded up: it is
set if a word below the leading one has a bit in its last places, as many places as the leading word
has bits. -/
def leadingBits (n : Nat) : Nat :=
  let e := Nat.log2 n
  if e < 64 then n
  else
    let leading := n >>> (e - 63)
    if hasLowBits n (e / 64) (e % 64 + 1) then leading ||| 1 else leading

/-- The bits of the double for `n`; infinity from the half beyond the greatest double on. -/
def doubleBits (n : Nat) : Nat :=
  if n = 0 then 0
  else
    let e := Nat.log2 n
    let significand :=
      if e ≤ 52 then n <<< (52 - e) else roundedShift (leadingBits n) (min e 63 - 52)
    min (((e + 1022) <<< 52) + significand) (2047 <<< 52)

/-- The double for `n`. -/
def double (n : Nat) : Float := Float.ofBits (doubleBits n).toUInt64

/-- A finite double without its sign: the significand, times two `up` times, and halved `down`
times. -/
structure Binary where
  significand : Nat
  up : Nat
  down : Nat
  deriving DecidableEq

/-- The value of a double without its sign, if it is finite. -/
def binary? (x : Float) : Option Binary :=
  let bits := x.toBits.toNat % (1 <<< 63)
  let exponent := bits >>> 52
  let fraction := bits % (1 <<< 52)
  if exponent = 2047 then none
  else if exponent = 0 then some ⟨fraction, 0, 1074⟩
  else some ⟨(1 <<< 52) + fraction, exponent - 1075, 1075 - exponent⟩

end GrammarSampler.Number
