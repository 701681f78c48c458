import Terse.Rule.Basic

/-!
# Functions

Operators applied as functions, functions applied to what they ignore, `identity` and `always`.
-/

namespace Terse.Rule

/-! ## Operators as functions -/

/-- An operator in parentheses that is given both operands. -/
def checkOperatorFunction (ctx : Context) : Expr → Option Finding
  | .app _ (.operatorFn name symbol) [left, right] =>
    let head : Range := ⟨name.start, left.range.start⟩
    let opening : Edit := if ctx.isFree then .remove head else .replace head "("
    let closing : List Edit := if ctx.isFree then [] else [.insert right.range.stop ")"]
    some (.fixing .operatorFunctions
      s!"Use the infix form (a {symbol} b) over the prefix form (({symbol}) a b)"
      ["The prefix form is generally more unfamiliar to Elm developers, and therefore it is nicer when the infix form is used."]
      name
      (opening :: .replace ⟨left.range.stop, right.range.start⟩ (" " ++ symbol ++ " ") :: closing))
  | _ => none

/-- Operators applied as functions. -/
def operatorFunctions : Rule := ⟨.operatorFunctions, [.app], checkOperatorFunction⟩

/-! ## Functions that ignore their argument -/

/-- What is wrong with applying a function with this parameter to this argument. -/
def ignoredArgument? (param : Pattern) (argument : Expr) : Option String :=
  match param.stripParens, argument.stripParens with
  | .unit _, .unit _ => some "Unnecessary unit argument"
  | .wild _, _ => some "Unnecessary wildcard argument"
  | _, _ => none

/-- A function applied directly to an argument that it ignores. -/
def checkAppliedLambda (ctx : Context) : Expr → Option Finding
  | .app whole fn (argument :: moreArgs) =>
    match fn.stripParens with
    | .lambda lambdaRange (param :: moreParams) body =>
      match ignoredArgument? param argument with
      | none => none
      | some message =>
        let dropArgument : Edit := .remove ⟨fn.range.stop, argument.range.stop⟩
        let fix := match moreParams, moreArgs with
          | [], [] => ctx.keepOnly whole body.stripParens
          | [], _ => [.remove ⟨lambdaRange.start, body.range.start⟩, dropArgument]
          | next :: _, _ => [.remove ⟨param.range.start, next.range.start⟩, dropArgument]
        some (.fixing .appliedLambda message
          ["This function is expecting an argument it ignores, and is immediately given one. You can remove both."]
          param.range fix)
    | _ => none
  | _ => none

/-- Functions applied to what they ignore. -/
def appliedLambda : Rule := ⟨.appliedLambda, [.app], checkAppliedLambda⟩

/-! ## `identity` and `always` -/

/-- The expression is `always` with a single argument. -/
def isAlwaysCall (ctx : Context) (e : Expr) : Bool :=
  match e.stripParens with
  | .app _ fn [_] => ctx.isReference fn Core.basics "always"
  | _ => false

/-- A chain whose last function ignores what the others make. -/
def checkAlwaysChain (ctx : Context) (chain : Chain) : Option Finding :=
  match chain.applicationOrder.getLast? with
  | none => none
  | some last =>
    if isAlwaysCall ctx last then
      some (.fixing .basics "Function composed with always will be ignored"
        ["`always` will swallow the function composed into it."] last.range
        (ctx.keepOnly chain.range last.stripParens))
    else none

/-- A chain with the identity in it, or that ends in `always`. -/
def checkBasicsChain (ctx : Context) (chain : Chain) : Option Finding :=
  match chain.terms.findIdx? ctx.isIdentity, chain.terms.find? ctx.isIdentity with
  | some i, some term =>
    some (.fixing .basics "`identity` should be removed"
      ["Composing a function with `identity` is the same as simply referencing the function."]
      term.range (chain.removeTerms i i (ctx.qualify Core.basics "identity")))
  | _, _ => checkAlwaysChain ctx chain

/-- Where the function of a call starts, with its parentheses if the call is direct. -/
def headStart (call : Call) (e : Expr) : Location :=
  match e, call.form with
  | .app _ fn _, .direct => fn.range.start
  | _, _ => call.fnRange.start

/-- A call of `identity`. -/
def checkIdentity (ctx : Context) (call : Call) (e : Expr) : Option Finding :=
  match call.args with
  | [] => none
  | first :: more =>
    let fix := if more.isEmpty then ctx.keepOnly call.range first.stripParens
      else [.remove ⟨headStart call e, first.range.start⟩]
    some (.fixing .basics "`identity` should be removed"
      ["`identity` can be a useful function to be passed as arguments to other functions, but calling it manually with an argument is the same thing as writing the argument on its own."]
      call.fnRange fix)

/-- A call of `always` with both arguments. -/
def checkAlways (ctx : Context) (call : Call) (e : Expr) : Option Finding :=
  match call.args with
  | first :: second :: more =>
    let fix := if more.isEmpty then ctx.keepOnly call.range first.stripParens
      else [.remove ⟨headStart call e, first.range.start⟩,
        .remove ⟨first.range.stop, second.range.stop⟩]
    some (.fixing .basics "Expression can be replaced by the first argument given to `always`"
      ["The second argument will be ignored because of the `always` call."] call.fnRange fix)
  | _ => none

/-- Uses of `identity` and `always`, in calls and in chains. -/
def checkBasics (ctx : Context) (e : Expr) : Option Finding :=
  match Chain.ofExpr? e with
  | some chain => checkBasicsChain ctx chain
  | none =>
    match Call.ofExpr? ctx e with
    | some call =>
      if call.isOf Core.basics "identity" then checkIdentity ctx call e
      else if call.isOf Core.basics "always" then checkAlways ctx call e
      else none
    | none => none

/-- Calls of `identity` and `always`. -/
def basics : Rule := ⟨.basics, [.app, .binary], checkBasics⟩

end Terse.Rule
