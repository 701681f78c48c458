import Terse.View.Context

/-!
# Known values

What an expression is known to be from its text alone: a boolean, a number, a text, or a list of
elements. Parentheses do not matter.
-/

namespace Terse

namespace Context

/-- The boolean that the expression names. -/
def bool? (ctx : Context) (e : Expr) : Option Bool :=
  if ctx.isReference e Core.basics "True" then some true
  else if ctx.isReference e Core.basics "False" then some false
  else none

end Context

/-- The name of a boolean. -/
def boolName (b : Bool) : String := if b then "True" else "False"

namespace Expr

/-- The number that a literal with any number of minus signs is. -/
def number? : Expr → Option Double
  | paren _ inner => inner.number?
  | literal _ l => l.number?
  | negate _ inner => inner.number?.map Double.negate
  | _ => none

/-- The least integer that has a place in memory. -/
def leastInt : Int := -(Nat.pow 2 63 : Nat)

/-- The opposite of an integer, unless that has no place in memory. -/
def negatedInt? (n : Int) : Option Int := if n = leastInt then none else some (-n)

/-- The integer that a literal with any number of minus signs is. -/
def int? : Expr → Option Int
  | paren _ inner => inner.int?
  | literal _ l => l.int?
  | negate _ inner => inner.int?.bind negatedInt?
  | _ => none

/-- The expression is the number zero. -/
def isZero (e : Expr) : Bool := (e.number?.map (Double.same Double.zero)).getD false

/-- The expression is the number one. -/
def isOne (e : Expr) : Bool := (e.number?.map (Double.same Double.one)).getD false

/-- The literal that the expression is. -/
def literal? (e : Expr) : Option Literal :=
  match e.stripParens with
  | literal _ l => some l
  | _ => none

/-- The text that the expression is. -/
def string? (e : Expr) : Option String :=
  match e.literal? with
  | some (.string s) => some s
  | _ => none

/-- The elements of the list that the expression is. -/
def list? (e : Expr) : Option (List Expr) :=
  match e.stripParens with
  | list _ items => some items
  | _ => none

/-- The expression is the empty list. -/
def isEmptyList (e : Expr) : Bool :=
  match e.list? with
  | some [] => true
  | _ => false

/-- The expression is the empty text. -/
def isEmptyString (e : Expr) : Bool :=
  match e.string? with
  | some s => s.isEmpty
  | none => false

end Expr

end Terse
