import Terse.Number.Double

/-!
# Reading numerals

The value of a run of digits, and of a decimal numeral with a fraction and an exponent.
-/

namespace Terse.Numeral

/-- The value of a hexadecimal digit. -/
def hexDigit? (c : Char) : Option Nat :=
  if '0' ≤ c ∧ c ≤ '9' then some (c.toNat - '0'.toNat)
  else if 'a' ≤ c ∧ c ≤ 'f' then some (c.toNat - 'a'.toNat + 10)
  else if 'A' ≤ c ∧ c ≤ 'F' then some (c.toNat - 'A'.toNat + 10)
  else none

/-- The value of a digit in a base of at most sixteen. -/
def digit? (base : Nat) (c : Char) : Option Nat :=
  match hexDigit? c with
  | some d => if d < base then some d else none
  | none => none

/-- The value of a run of digits that follow digits of value `acc`. -/
def valueFrom (base : Nat) (acc : Nat) : List Char → Option Nat
  | [] => some acc
  | c :: cs =>
    match digit? base c with
    | some d => valueFrom base (acc * base + d) cs
    | none => none

/-- The value of a run of digits, which must not be empty. -/
def value? (base : Nat) : List Char → Option Nat
  | [] => none
  | cs => valueFrom base 0 cs

/-- The greatest integer that can be written. -/
def greatest : Nat := Nat.pow 2 63 - 1

/-- The value of a run of digits that is small enough to be written. -/
def bounded? (base : Nat) (cs : List Char) : Option Nat :=
  (value? base cs).filter (· ≤ greatest)

/-- The mark of an exponent. -/
def isExponentMark (c : Char) : Bool := c == 'e' || c == 'E'

/-- The value of an exponent: digits after at most one sign. -/
def exponent? : List Char → Option Int
  | '-' :: cs => (value? 10 cs).map fun n => -(n : Int)
  | '+' :: cs => (value? 10 cs).map Int.ofNat
  | cs => (value? 10 cs).map Int.ofNat

/-- The double nearest to a numeral of digits, a fraction and an exponent. -/
def double? (text : List Char) : Option Double :=
  let mantissa := text.takeWhile fun c => !isExponentMark c
  let power := text.dropWhile fun c => !isExponentMark c
  let whole := mantissa.takeWhile (· ≠ '.')
  let fraction := (mantissa.dropWhile (· ≠ '.')).drop 1
  let exponent := match power with
    | [] => some 0
    | _ :: digits => exponent? digits
  match value? 10 (whole ++ fraction), exponent with
  | some m, some e => some (Double.ofDecimal m (e - fraction.length))
  | _, _ => none

end Terse.Numeral
