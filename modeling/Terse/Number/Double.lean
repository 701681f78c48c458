/-!
# Double-precision numbers

A double that is a number, or an infinity: its sign, and the 63 lower bits of its encoding. Those
bits, read as a natural number, grow with the absolute value, so comparing them compares numbers.
Rounding is to the nearest double, and to the one with an even last bit when two are equally near.
Powers are `Nat.pow` itself, so what a number is does not depend on the instances in scope.
-/

namespace Terse

/-- A double other than not-a-number. -/
structure Double where
  negative : Bool
  magnitude : Nat
deriving DecidableEq, Repr, Inhabited

namespace Double

/-- The encoding in 64 bits. -/
def bits (x : Double) : Nat := if x.negative then Nat.pow 2 63 + x.magnitude else x.magnitude

/-- The place of a double in the order of numbers; the two zeros share theirs. -/
def rank (x : Double) : Int := if x.negative then -(x.magnitude : Int) else x.magnitude

/-- The two doubles are the same number. -/
def same (x y : Double) : Bool := x.rank == y.rank

/-- The first double is the smaller number. -/
def less (x y : Double) : Bool := x.rank < y.rank

/-- The first double is the smaller number or the same one. -/
def atMost (x y : Double) : Bool := x.rank ≤ y.rank

/-- The double with the opposite sign. -/
def negate (x : Double) : Double := ⟨!x.negative, x.magnitude⟩

/-- The number zero, without a sign. -/
def zero : Double := ⟨false, 0⟩

/-- The magnitude of an infinity. -/
def infiniteMagnitude : Nat := 2047 * Nat.pow 2 52

/-- The number one. -/
def one : Double := ⟨false, 1023 * Nat.pow 2 52⟩

/-- The quotient rounded to the nearest integer, a half to the even one. -/
def roundQuotient (num den : Nat) : Nat :=
  let q := num / den
  let r := num % den
  if 2 * r < den then q
  else if den < 2 * r then q + 1
  else q + q % 2

/-- The fraction `num / (den * 2 ^ e)` as a numerator and a denominator. -/
def scaled (num den : Nat) (e : Int) : Nat × Nat :=
  if 0 ≤ e then (num, den * Nat.pow 2 e.toNat) else (num * Nat.pow 2 (-e).toNat, den)

/-- The least exponent of a unit in the last place. -/
def leastExponent : Int := -1074

/-- The exponent of the unit in the last place of the doubles around `num / den`. -/
def unitExponent (num den : Nat) : Int :=
  let e : Int := (num.log2 : Int) - (den.log2 : Int) - 52
  let (n, d) := scaled num den e
  max leastExponent (if n < Nat.pow 2 52 * d then e - 1 else e)

/-- The magnitude of the double nearest to `num / den`. -/
def magnitudeOfRatio (num den : Nat) : Nat :=
  if num = 0 then 0
  else
    let e := unitExponent num den
    let (n, d) := scaled num den e
    min infiniteMagnitude ((e - leastExponent).toNat * Nat.pow 2 52 + roundQuotient n d)

/-- The double nearest to an integer. -/
def ofInt (n : Int) : Double := ⟨n < 0, magnitudeOfRatio n.natAbs 1⟩

/-- How many decimal digits a number has. -/
def digitCount (n : Nat) : Nat := (Nat.toDigits 10 n).length

/-- Every number of at least this power of ten rounds to infinity. -/
def hugePower : Int := 310

/-- Every number below this power of ten rounds to zero. -/
def tinyPower : Int := -330

/-- The double nearest to `m * 10 ^ e`. -/
def ofDecimal (m : Nat) (e : Int) : Double :=
  let top := (digitCount m : Int) + e
  if m = 0 ∨ top < tinyPower then zero
  else if hugePower < top then ⟨false, infiniteMagnitude⟩
  else if 0 ≤ e then ⟨false, magnitudeOfRatio (m * Nat.pow 10 e.toNat) 1⟩
  else ⟨false, magnitudeOfRatio m (Nat.pow 10 (-e).toNat)⟩

end Double

end Terse
