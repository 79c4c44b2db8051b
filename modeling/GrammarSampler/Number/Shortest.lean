import GrammarSampler.Number.Double

/-!
# Shortest decimal text

A double is written with the fewest decimal digits that read back as the same double; of several
such numbers the one nearest to the exact value is taken.  All that reads back as `x` lies between
the midpoints to the neighbours of `x`; the midpoints themselves belong to it when the significand
is even.
-/

namespace GrammarSampler.Number

/-- A positive fraction. -/
structure Ratio where
  num : Nat
  den : Nat

def Ratio.lt (a b : Ratio) : Bool := a.num * b.den < b.num * a.den

def Ratio.le (a b : Ratio) : Bool := a.num * b.den ≤ b.num * a.den

/-- The distance of two fractions. -/
def Ratio.distance (a b : Ratio) : Ratio :=
  ⟨max (a.num * b.den) (b.num * a.den) - min (a.num * b.den) (b.num * a.den), a.den * b.den⟩

/-- The positive decimal number `digits * 10 ^ exponent`. -/
structure Decimal where
  digits : Nat
  exponent : Int
  deriving DecidableEq

/-- The value of a decimal number as a fraction. -/
def Decimal.ratio (d : Decimal) : Ratio :=
  ⟨d.digits * Nat.pow 10 d.exponent.toNat, Nat.pow 10 (-d.exponent).toNat⟩

/-- The number without zeros at its end; `fuel` bounds how many are removed. -/
def Decimal.trimmed : Nat → Decimal → Decimal
  | 0, d => d
  | fuel + 1, d =>
    if d.digits ≠ 0 ∧ d.digits % 10 = 0 then trimmed fuel ⟨d.digits / 10, d.exponent + 1⟩ else d

/-- The exact value. -/
def Binary.ratio (b : Binary) : Ratio := ⟨b.significand <<< b.up, 1 <<< b.down⟩

/-- The midpoint to the double above. -/
def Binary.upper (b : Binary) : Ratio := ⟨(2 * b.significand + 1) <<< b.up, 2 <<< b.down⟩

/-- The midpoint to the double below, which is nearer at the beginning of a binade. -/
def Binary.lower (b : Binary) : Ratio :=
  if b.significand = 1 <<< 52 ∧ b.down < 1074 then
    ⟨(4 * b.significand - 1) <<< b.up, 4 <<< b.down⟩
  else ⟨(2 * b.significand - 1) <<< b.up, 2 <<< b.down⟩

/-- A decimal reader takes the fraction `r` for the value `b`. -/
def Binary.readsBack (b : Binary) (r : Ratio) : Bool :=
  if b.significand % 2 = 0 then b.lower.le r && r.le b.upper
  else b.lower.lt r && r.lt b.upper

/-- The least `k` from `k` on with `r < 10 ^ k`; `fuel` bounds the search. -/
def magnitudeFrom (r : Ratio) : Nat → Int → Int
  | 0, k => k
  | fuel + 1, k => if r.lt (Decimal.ratio ⟨1, k⟩) then k else magnitudeFrom r fuel (k + 1)

/-- The neighbours of `r` among the multiples of `10 ^ exponent`. -/
def neighbours (r : Ratio) (exponent : Int) : Decimal × Decimal :=
  let below := r.num * Nat.pow 10 (-exponent).toNat / (r.den * Nat.pow 10 exponent.toNat)
  (⟨below, exponent⟩, ⟨below + 1, exponent⟩)

/-- The neighbour of `b` on the grid of `10 ^ exponent` that reads back, the nearer one of two; at
the same distance the even one. -/
def Binary.onGrid (b : Binary) (exponent : Int) : Option Decimal :=
  let (low, high) := neighbours b.ratio exponent
  match low.digits ≠ 0 && b.readsBack low.ratio, b.readsBack high.ratio with
  | true, true =>
    let below := b.ratio.distance low.ratio
    let above := b.ratio.distance high.ratio
    some (if below.lt above || (below.le above && low.digits % 2 == 0) then low else high)
  | true, false => some low
  | false, true => some high
  | false, false => none

/-- The first decimal number that reads back, on grids of one digit, two digits and so on for a
value below `10 ^ magnitude`.  Seventeen digits are always enough. -/
def Binary.shortest (b : Binary) : Decimal :=
  let magnitude := magnitudeFrom b.ratio 700 (-330)
  let found := (List.range 17).findSome? fun (n : Nat) => b.onGrid (magnitude - 1 - n)
  (found.getD ⟨0, 0⟩).trimmed 400

/-- The text of a decimal number: positional from `0.00001` to sixteen whole digits, else with one
digit before the point and an exponent with its sign. -/
def Decimal.text (d : Decimal) : String :=
  let digits := Nat.toDigits 10 d.digits
  let point : Int := digits.length + d.exponent
  if 0 ≤ d.exponent ∧ point ≤ 16 then
    String.ofList (digits ++ List.replicate d.exponent.toNat '0' ++ ['.', '0'])
  else if 0 < point ∧ point ≤ 16 then
    String.ofList (digits.take point.toNat ++ '.' :: digits.drop point.toNat)
  else if -5 < point ∧ point ≤ 0 then
    String.ofList ('0' :: '.' :: List.replicate (-point).toNat '0' ++ digits)
  else
    let fraction := if digits.length = 1 then [] else '.' :: digits.drop 1
    let mark := if 0 < point then "e+" else "e"
    String.ofList (digits.take 1 ++ fraction) ++ mark ++ toString (point - 1)

/-- The shortest text of `x ≥ 0`, if it is finite. -/
def shortestText? (x : Float) : Option String :=
  (binary? x).map fun b => if b.significand = 0 then "0.0" else b.shortest.text

end GrammarSampler.Number
