import Terse.Rule.Basic

/-!
# Arithmetic

Operations with zero and one, numbers negated twice, and comparisons of known numbers.
-/

namespace Terse.Rule

/-! ## Operations -/

/-- Keep one operand of an operation. -/
def keepOperand (ctx : Context) (whole : Range) (message detail : String) (kept : Expr) : Finding :=
  .fixing .arithmetic message [detail] whole (ctx.keepOnly whole kept.stripParens)

/-- Uses of `+` with zero. -/
def checkPlus (ctx : Context) (whole : Range) (left right : Expr) : Option Finding :=
  let keep := keepOperand ctx whole "Unnecessary addition with 0"
    "Adding 0 does not change the value of the number."
  if right.isZero then some (keep left)
  else if left.isZero then some (keep right)
  else none

/-- Uses of `-` with zero. -/
def checkMinus (ctx : Context) (whole : Range) (left right : Expr) : Option Finding :=
  if right.isZero then
    some (keepOperand ctx whole "Unnecessary subtraction with 0"
      "Subtracting 0 does not change the value of the number." left)
  else if left.isZero then
    some (.fixing .arithmetic "Subtracting from 0 is the same as negating"
      ["You can negate the expression directly."] whole
      [ctx.replaceBy whole ("-" ++ ctx.argText right.stripParens) false])
  else none

/-- Uses of `*` with zero or one. -/
def checkTimes (ctx : Context) (whole : Range) (left right : Expr) : Option Finding :=
  let drop := keepOperand ctx whole "Unnecessary multiplication by 1"
    "Multiplying by 1 does not change the value of the number."
  let absorb := keepOperand ctx whole "Multiplying by 0 equals 0"
    "You can replace this value by 0."
  if right.isOne then some (drop left)
  else if left.isOne then some (drop right)
  else if right.isZero then some (absorb right)
  else if left.isZero then some (absorb left)
  else none

/-- Uses of `/` and `//` by one. -/
def checkDivide (ctx : Context) (whole : Range) (left right : Expr) : Option Finding :=
  if right.isOne then
    some (keepOperand ctx whole "Unnecessary division by 1"
      "Dividing by 1 does not change the value of the number." left)
  else none

/-- The operations of arithmetic. -/
def checkArithmetic (ctx : Context) : Expr → Option Finding
  | .binary whole symbol left right =>
    if symbol == "+" then checkPlus ctx whole left right
    else if symbol == "-" then checkMinus ctx whole left right
    else if symbol == "*" then checkTimes ctx whole left right
    else if symbol == "/" || symbol == "//" then checkDivide ctx whole left right
    else none
  | _ => none

/-- Operations with zero and one. -/
def arithmetic : Rule := ⟨.arithmetic, [.binary], checkArithmetic⟩

/-! ## Negation -/

/-- A number negated twice. -/
def checkNegation (ctx : Context) : Expr → Option Finding
  | .negate whole inner =>
    match inner.stripParens with
    | .negate _ value =>
      some (.fixing .numberNegation "Unnecessary double number negation"
        ["Negating a number twice is the same as the number itself."] whole
        (ctx.keepOnly whole value.stripParens))
    | _ => none
  | _ => none

/-- Double negations. -/
def numberNegation : Rule := ⟨.numberNegation, [.negate], checkNegation⟩

/-! ## Comparison -/

/-- The comparison that an operator makes of two numbers. -/
def ordering? (symbol : String) : Option (Double → Double → Bool) :=
  if symbol == "<" then some Double.less
  else if symbol == ">" then some fun a b => b.less a
  else if symbol == "<=" then some Double.atMost
  else if symbol == ">=" then some fun a b => b.atMost a
  else none

/-- A comparison of two known numbers. -/
def checkOrdering (ctx : Context) : Expr → Option Finding
  | .binary whole symbol left right =>
    match ordering? symbol, left.number?, right.number? with
    | some compare, some a, some b =>
      let name := boolName (compare a b)
      some (.fixing .comparison s!"Comparison is always {name}"
        [s!"Both sides are number literals, so this comparison always results in {name}."] whole
        [ctx.replaceBy whole (ctx.qualify Core.basics name) true])
    | _, _, _ => none
  | _ => none

/-- Comparisons of numbers. -/
def comparison : Rule := ⟨.comparison, [.binary], checkOrdering⟩

end Terse.Rule
