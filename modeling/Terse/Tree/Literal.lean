import Terse.Number.Double

/-!
# Literals

Literal values as they are written. The booleans are not among them: they are constructors.
-/

namespace Terse

/-- A number, a text or a character. An integer keeps the base it was written in. -/
inductive Literal where
  | int (value : Int)
  | hex (value : Int)
  | float (value : Double)
  | string (value : String)
  | char (value : Char)
deriving DecidableEq, Repr, Inhabited

namespace Literal

/-- The value of an integer in either base. -/
def int? : Literal → Option Int
  | .int n | .hex n => some n
  | _ => none

/-- The value of a number, as a double. -/
def number? : Literal → Option Double
  | .int n | .hex n => some (Double.ofInt n)
  | .float x => some x
  | _ => none

/-- The literal is a number. -/
def isNumber (l : Literal) : Bool := l.number?.isSome

/-- The two literals have the same value. Numbers are compared as doubles; an integer and a float
never have the same value. -/
def sameValue : Literal → Literal → Bool
  | .string a, .string b => a == b
  | .char a, .char b => a == b
  | .float a, .float b => a.same b
  | .int a, .int b | .int a, .hex b | .hex a, .int b | .hex a, .hex b =>
    (Double.ofInt a).same (Double.ofInt b)
  | _, _ => false

end Literal

end Terse
