import GrammarSampler.Number.Double

/-!
# Fixed-point text

A double with a fixed number of decimal places.  Its exact value is rounded to the nearest number
with so many places; a half goes to the even one.
-/

namespace GrammarSampler.Number

/-- `n / d`, rounded to the nearest whole number; a half goes to the even one. -/
def roundedQuotient (n d : Nat) : Nat :=
  let q := n / d
  let r := n % d
  if 2 * r > d ∨ (2 * r = d ∧ q % 2 = 1) then q + 1 else q

/-- The digits of `n`, with zeros before them up to `width` digits. -/
def paddedDigits (width n : Nat) : List Char :=
  let digits := Nat.toDigits 10 n
  List.replicate (width - digits.length) '0' ++ digits

/-- A finite value with `places` decimal places. -/
def Binary.fixed (b : Binary) (places : Nat) : String :=
  let unit := Nat.pow 10 places
  let scaled := roundedQuotient ((b.significand <<< b.up) * unit) (1 <<< b.down)
  String.ofList (Nat.toDigits 10 (scaled / unit) ++ '.' :: paddedDigits places (scaled % unit))

/-- The value of `x ≥ 0` with `places` decimal places. -/
def fixedPoint (places : Nat) (x : Float) : String :=
  match binary? x with
  | some b => b.fixed places
  | none => "inf"

end GrammarSampler.Number
