/-!
# Precedence

How tightly each operator binds, and how a row of operators of one level is grouped.
-/

namespace Terse

/-- How operators of one level are grouped. -/
inductive Associativity where
  | left
  | right
  | none
deriving DecidableEq, Repr, Inhabited

/-- The binding of an operator: a higher level binds tighter. -/
structure Precedence where
  level : Nat
  associativity : Associativity
deriving DecidableEq, Repr, Inhabited

namespace Precedence

/-- The binding of each operator; an unknown one binds tightest, to the left. -/
def ofSymbol (symbol : String) : Precedence :=
  if symbol == "<|" then ⟨0, .right⟩
  else if symbol == "|>" then ⟨0, .left⟩
  else if symbol == "||" then ⟨2, .right⟩
  else if symbol == "&&" then ⟨3, .right⟩
  else if ["==", "/=", "<", ">", "<=", ">="].contains symbol then ⟨4, .none⟩
  else if ["++", "::"].contains symbol then ⟨5, .right⟩
  else if ["+", "-"].contains symbol then ⟨6, .left⟩
  else if ["*", "/", "//"].contains symbol then ⟨7, .left⟩
  else if symbol == "^" then ⟨8, .right⟩
  else if symbol == ">>" then ⟨9, .right⟩
  else ⟨9, .left⟩

/-- The least level of operators that may follow in the right operand. -/
def rightLeast (p : Precedence) : Nat :=
  match p.associativity with
  | .right => p.level
  | .left | .none => p.level + 1

end Precedence

end Terse
