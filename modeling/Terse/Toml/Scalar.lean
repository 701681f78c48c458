import Terse.Number.Decimal

/-!
# Scalars

The texts that stand for a boolean, an integer, a float, or a moment in a TOML document. Only
their form is decided here. Like all readers of TOML, these serve the outer layer only.
-/

namespace Terse.Toml

/-- A character that a scalar is made of. -/
def isScalarChar (c : Char) : Bool := c.isAlphanum || "+-._:".toList.contains c

/-- Digits of a base with single underscores between them. -/
def isDigitRun (base : Nat) : List Char → Bool
  | [] => false
  | [c] => (Numeral.digit? base c).isSome
  | c :: '_' :: cs => (Numeral.digit? base c).isSome && isDigitRun base cs
  | c :: cs => (Numeral.digit? base c).isSome && isDigitRun base cs

/-- The digits of a run without the underscores. -/
def digitsOf (cs : List Char) : List Char := cs.filter (· ≠ '_')

/-- The text without one sign in front. -/
def unsigned : List Char → List Char
  | '+' :: cs => cs
  | '-' :: cs => cs
  | cs => cs

/-- A decimal whole number without a sign: no zero in front of other digits. -/
def isWhole (cs : List Char) : Bool :=
  isDigitRun 10 cs && (cs.length = 1 || cs.head? != some '0')

/-- An integer of the base fits in 64 bits. -/
def fits (base bound : Nat) (cs : List Char) : Bool :=
  match Numeral.value? base (digitsOf cs) with
  | some n => n ≤ bound
  | none => false

/-- An integer in one of the four bases. -/
def isInteger (text : List Char) : Bool :=
  match text with
  | '0' :: 'x' :: cs => isDigitRun 16 cs && fits 16 Numeral.greatest cs
  | '0' :: 'o' :: cs => isDigitRun 8 cs && fits 8 Numeral.greatest cs
  | '0' :: 'b' :: cs => isDigitRun 2 cs && fits 2 Numeral.greatest cs
  | '-' :: cs => isWhole cs && fits 10 (Numeral.greatest + 1) cs
  | _ => isWhole (unsigned text) && fits 10 Numeral.greatest (unsigned text)

/-- A whole number without a sign, then a fraction, an exponent or both. -/
def isRational (body : List Char) : Bool :=
  let mantissa := body.takeWhile fun c => !Numeral.isExponentMark c
  let power := body.dropWhile fun c => !Numeral.isExponentMark c
  let whole := mantissa.takeWhile (· ≠ '.')
  let fraction := mantissa.dropWhile (· ≠ '.')
  isWhole whole && (fraction.isEmpty || isDigitRun 10 fraction.tail) &&
    (power.isEmpty || isDigitRun 10 (unsigned power.tail)) &&
    !(fraction.isEmpty && power.isEmpty)

/-- The double nearest to a number without a sign is finite. -/
def isFinite (body : List Char) : Bool :=
  match Numeral.double? (digitsOf body) with
  | some x => x.magnitude < Double.infiniteMagnitude
  | none => false

/-- A float: one of the special values, or a number. Only behind a minus sign may the number be
too great for a double. -/
def isFloat (text : List Char) : Bool :=
  let body := unsigned text
  body = "inf".toList || body = "nan".toList ||
    (isRational body && (text.head? == some '-' || isFinite body))

/-- A number of two digits in bounds. -/
def isPair (low high : Nat) (cs : List Char) : Bool :=
  cs.length = 2 &&
    match Numeral.value? 10 cs with
    | some n => low ≤ n && n ≤ high
    | none => false

/-- How many days a month has. -/
def daysIn (year month : Nat) : Nat :=
  if month = 2 then
    if (year % 4 = 0 ∧ year % 100 ≠ 0) ∨ year % 400 = 0 then 29 else 28
  else if [4, 6, 9, 11].contains month then 30
  else 31

/-- A date, `2000-12-31`. -/
def isDate (cs : List Char) : Bool :=
  match Numeral.value? 10 (cs.take 4), Numeral.value? 10 ((cs.drop 5).take 2) with
  | some year, some month =>
    cs.length = 10 && (cs.drop 4).head? = some '-' && (cs.drop 7).head? = some '-' &&
      1 ≤ month && month ≤ 12 && isPair 1 (daysIn year month) (cs.drop 8)
  | _, _ => false

/-- A time of the day, `23:59:59`, perhaps with a fraction of a second. -/
def isTime (cs : List Char) : Bool :=
  let fraction := cs.drop 8
  isPair 0 23 (cs.take 2) && (cs.drop 2).head? = some ':' && isPair 0 59 ((cs.drop 3).take 2) &&
    (cs.drop 5).head? = some ':' && isPair 0 60 ((cs.drop 6).take 2) &&
    (fraction.isEmpty || (fraction.head? = some '.' && !fraction.tail.isEmpty &&
      fraction.tail.all Char.isDigit))

/-- A difference from world time, or none. -/
def isOffset : List Char → Bool
  | [] => true
  | ['Z'] => true
  | ['z'] => true
  | sign :: cs =>
    (sign == '+' || sign == '-') && isPair 0 23 (cs.take 2) && (cs.drop 2).head? = some ':' &&
      isPair 0 59 (cs.drop 3)

/-- A character that ends the time of a moment. -/
def startsOffset (c : Char) : Bool := c == 'Z' || c == 'z' || c == '+' || c == '-'

/-- A date, a time, or both, then perhaps with an offset. -/
def isMoment (text : List Char) : Bool :=
  isDate text || isTime text ||
    (isDate (text.take 10) && ['T', 't', ' '].contains ((text.drop 10).head?.getD '.') &&
      isTime ((text.drop 11).takeWhile (!startsOffset ·)) &&
      isOffset ((text.drop 11).dropWhile (!startsOffset ·)))

/-- A scalar of any kind. -/
def isScalar (text : List Char) : Bool :=
  text = "true".toList || text = "false".toList || isInteger text || isFloat text || isMoment text

/-- The scalar at the front of a text. A date goes on behind a single space if a time follows. -/
def scalarRun (cs : List Char) : List Char :=
  let first := cs.takeWhile isScalarChar
  match isDate first, cs.drop first.length with
  | true, ' ' :: rest =>
    if isTime (rest.take 8) then first ++ ' ' :: rest.takeWhile isScalarChar else first
  | _, _ => first

end Terse.Toml
