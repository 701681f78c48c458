import Terse.Number.Double

/-!
# Shortest decimal text

The text of a double has the fewest digits that read back to it; among those it is the nearest to
the exact value. It is written positionally whatever its size: no exponent, and no fraction when
there is none.
-/

namespace Terse.Double

/-- The exact value of a finite double without its sign, as a numerator and a denominator. -/
def ratio (x : Double) : Nat × Nat :=
  let exponent := x.magnitude / Nat.pow 2 52
  let fraction := x.magnitude % Nat.pow 2 52
  if exponent = 0 then (fraction, Nat.pow 2 1074)
  else if 1075 ≤ exponent then ((Nat.pow 2 52 + fraction) * Nat.pow 2 (exponent - 1075), 1)
  else (Nat.pow 2 52 + fraction, Nat.pow 2 (1075 - exponent))

/-- The numerator and denominator of `num / den / 10 ^ e`. -/
def shifted (num den : Nat) (e : Int) : Nat × Nat :=
  if 0 ≤ e then (num, den * Nat.pow 10 e.toNat) else (num * Nat.pow 10 (-e).toNat, den)

/-- The power of ten just above `num / den`, counted from an estimate that is too small. -/
def powerAbove (num den : Nat) : Nat → Int → Int
  | 0, p => p
  | fuel + 1, p =>
    let (n, d) := shifted num den p
    if n < d then p else powerAbove num den fuel (p + 1)

/-- The least `p` with `num / den < 10 ^ p`. Three decimal digits take about ten binary ones, and
never more, which gives the estimate. -/
def decimalPower (num den : Nat) : Int :=
  let binary : Int := (num.log2 : Int) - (den.log2 : Int) - 1
  let estimate : Int := if 0 ≤ binary then binary * 3 / 10 else binary * 4 / 10 - 1
  powerAbove num den 200 estimate

/-- The numeral of `digits` digits that reads back to the double and is nearest to it: one of the
two neighbours of the value on the grid of such numerals. -/
def numeral? (x : Double) (digits : Nat) : Option (Nat × Int) :=
  let (num, den) := x.ratio
  let e := decimalPower num den - digits
  let (n, d) := shifted num den e
  let low := n / d
  let reads (m : Nat) : Bool := (ofDecimal m e).magnitude == x.magnitude
  let nearer := if 2 * (n % d) < d then low else low + 1
  let other := if 2 * (n % d) < d then low + 1 else low
  let carried (m : Nat) : Nat × Int := if m = Nat.pow 10 digits then (1, e + digits) else (m, e)
  if reads nearer then some (carried nearer)
  else if reads other then some (carried other)
  else none

/-- The shortest numeral: the first number of digits, up to seventeen, that reads back. -/
def shortest (x : Double) : Nat × Int :=
  ((List.range 17).findSome? fun k => x.numeral? (k + 1)).getD (0, 0)

/-- The numeral `m * 10 ^ e` written positionally. -/
def positional (m : Nat) (e : Int) : String :=
  let digits := Nat.toDigits 10 m
  if 0 ≤ e then String.ofList (digits ++ List.replicate e.toNat '0')
  else
    let places := (-e).toNat
    let padded := List.replicate (places + 1 - digits.length) '0' ++ digits
    let whole := padded.take (padded.length - places)
    let fraction := padded.drop (padded.length - places)
    String.ofList (whole ++ '.' :: fraction)

/-- The text of a double. -/
def render (x : Double) : String :=
  let sign := if x.negative then "-" else ""
  if infiniteMagnitude ≤ x.magnitude then sign ++ "inf"
  else if x.magnitude = 0 then sign ++ "0"
  else
    let (m, e) := x.shortest
    sign ++ positional m e

end Terse.Double
