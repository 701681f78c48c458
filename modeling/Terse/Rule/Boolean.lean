import Terse.Rule.Basic

/-!
# Boolean algebra

Simplifications of `||`, `&&`, `not`, `==` and `/=`.
-/

namespace Terse.Rule

/-! ## Operators with a known operand -/

/-- The boolean that decides the result of an operator whatever the other operand is. -/
def absorbing? (symbol : String) : Option Bool :=
  if symbol == "||" then some true
  else if symbol == "&&" then some false
  else none

/-- An operator one of whose operands is known: keep that operand if it decides the result, and
the other one if it does not. -/
def knownOperand (ctx : Context) (whole : Range) (absorbing value : Bool) (known other : Expr) :
    Finding :=
  if value = absorbing then
    .fixing .booleanOperators s!"Condition is always {boolName absorbing}"
      [s!"This condition will always result in {boolName absorbing}."] whole
      (ctx.keepOnly whole known.stripParens)
  else
    .fixing .booleanOperators "Part of the expression is unnecessary"
      [s!"`{boolName value}` does not change the result of the expression."] known.range
      (ctx.keepOnly whole other.stripParens)

/-- Uses of `||` and `&&` with a known operand, or with two equal ones. -/
def checkBooleanOperator (ctx : Context) : Expr → Option Finding
  | .binary whole symbol left right =>
    match absorbing? symbol with
    | none => none
    | some absorbing =>
      match ctx.bool? left, ctx.bool? right with
      | some value, _ => some (knownOperand ctx whole absorbing value left right)
      | none, some value => some (knownOperand ctx whole absorbing value right left)
      | none, none =>
        if ctx.areEqual left right then
          some (.fixing .booleanOperators "Part of the expression is unnecessary"
            ["Both sides of the operator are the same, so the expression is equal to either side."]
            right.range (ctx.keepOnly whole left.stripParens))
        else none
  | _ => none

/-- Boolean operators. -/
def booleanOperators : Rule := ⟨.booleanOperators, [.binary], checkBooleanOperator⟩

/-! ## Negation -/

/-- The index of the first two neighbours in a list that both pass a test. -/
def firstPair {α : Type} (test : α → Bool) : List α → Option Nat
  | x :: y :: rest =>
    if test x && test y then some 0 else (firstPair test (y :: rest)).map (· + 1)
  | _ => none

/-- Two neighbours in a chain that negate twice. -/
def checkNotChain (ctx : Context) (chain : Chain) : Option Finding :=
  match firstPair (ctx.isReference · Core.basics "not") chain.terms with
  | none => none
  | some i =>
    match chain.terms[i]?, chain.terms[i + 1]? with
    | some first, some second =>
      some (.fixing .notCalls "Unnecessary double negation"
        ["Composing `not` with `not` cancels out both calls."] (first.range.merge second.range)
        (chain.removeTerms i (i + 1) (ctx.qualify Core.basics "identity")))
    | _, _ => none

/-- A call of `not` on a known boolean or on another call of `not`. -/
def checkNotCall (ctx : Context) (call : Call) (argument : Expr) : Option Finding :=
  match ctx.bool? argument with
  | some value =>
    some (.fixing .notCalls s!"Expression is equal to {boolName !value}"
      ["You can replace the call to `not` by the boolean value directly."] call.range
      [ctx.replaceBy call.range (ctx.qualify Core.basics (boolName !value)) true])
  | none =>
    match ctx.argOfCall? argument Core.basics "not" with
    | some inner =>
      some (.fixing .notCalls "Unnecessary double negation"
        ["Calling `not` twice cancels out both calls."] call.fnRange
        (ctx.keepOnly call.range inner.stripParens))
    | none => none

/-- Uses of `not`, in calls and in chains. -/
def checkNot (ctx : Context) (e : Expr) : Option Finding :=
  match Chain.ofExpr? e with
  | some chain => checkNotChain ctx chain
  | none =>
    match Call.ofExpr? ctx e with
    | some call =>
      match call.isOf Core.basics "not", call.args with
      | true, [argument] => checkNotCall ctx call argument
      | _, _ => none
    | none => none

/-- Calls of `not`. -/
def notCalls : Rule := ⟨.notCalls, [.app, .binary], checkNot⟩

/-! ## Equality -/

/-- Whether two literals have the same value, if they can be compared. -/
def literalsEqual? (left right : Expr) : Option Bool :=
  match left.number?, right.number? with
  | some a, some b => some (a.same b)
  | _, _ =>
    match left.literal?, right.literal? with
    | some (.string a), some (.string b) => some (a == b)
    | some (.char a), some (.char b) => some (a == b)
    | _, _ => none

/-- Where a direct call of `not` names it, and its argument. -/
def negated? (ctx : Context) (e : Expr) : Option (Range × Expr) :=
  match Call.ofExpr? ctx e with
  | some call =>
    match call.isOf Core.basics "not", call.args, call.form with
    | true, [argument], .direct => some (call.fnRange, argument)
    | _, _, _ => none
  | none => none

/-- What is compared with a boolean in such a way that the comparison changes nothing. -/
def comparedWithBool? (ctx : Context) (isEqual : Bool) (left right : Expr) : Option Expr :=
  if ctx.bool? right = some isEqual then some left
  else if ctx.bool? left = some isEqual then some right
  else none

/-- The result of a comparison, if it is known. -/
def knownComparison? (ctx : Context) (isEqual : Bool) (left right : Expr) : Option Bool :=
  if ctx.areEqual left right then some isEqual
  else (literalsEqual? left right).map (· == isEqual)

/-- A comparison of anything: with a boolean, with a known result, or of two negations. -/
def checkComparison (ctx : Context) (whole : Range) (isEqual : Bool) (left right : Expr) :
    Option Finding :=
  match comparedWithBool? ctx isEqual left right, knownComparison? ctx isEqual left right with
  | some kept, _ =>
    some (.fixing .equality "Unnecessary comparison with boolean"
      ["The result of the expression will be the same with or without the comparison."] whole
      (ctx.keepOnly whole kept.stripParens))
  | none, some result =>
    some (.fixing .equality s!"Condition is always {boolName result}"
      [s!"Based on the values and/or the context, we can determine that the value of this condition will always be {boolName result}."]
      whole [ctx.replaceBy whole (ctx.qualify Core.basics (boolName result)) true])
  | none, none =>
    match negated? ctx left, negated? ctx right with
    | some (leftNot, leftArg), some (rightNot, rightArg) =>
      some (.fixing .equality "Unnecessary negation on both sides"
        ["Since both sides are negated using `not`, they are redundant and can be removed."] whole
        [.remove ⟨leftNot.start, leftArg.range.start⟩,
         .remove ⟨rightNot.start, rightArg.range.start⟩])
    | _, _ => none

/-- Uses of `==` and `/=`. -/
def checkEquality (ctx : Context) : Expr → Option Finding
  | .binary whole symbol left right =>
    if symbol == "==" then checkComparison ctx whole true left right
    else if symbol == "/=" then checkComparison ctx whole false left right
    else none
  | _ => none

/-- Comparisons for equality. -/
def equality : Rule := ⟨.equality, [.binary], checkEquality⟩

end Terse.Rule
