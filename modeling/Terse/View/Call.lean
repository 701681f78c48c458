import Terse.View.Context

/-!
# Calls

A call of a function that is known by name, whichever way it is written: `f a b`, `b |> f a`, or
`f a <| b`. A function that is given some arguments in parentheses and others outside is one call.
-/

namespace Terse

/-- How a call is written. -/
inductive CallForm where
  | direct
  | pipeRight
  | pipeLeft
deriving DecidableEq, Repr, Inhabited

/-- A call of a known function. -/
structure Call where
  function : ResolvedName
  /-- Where the function is named. -/
  fnRange : Range
  /-- The arguments, in the order they are applied in. -/
  args : List Expr
  form : CallForm
  /-- Where the whole call stands. -/
  range : Range
deriving Repr, Inhabited

namespace Call

/-- A call of a function with further arguments. A piped call cannot be given more of them. -/
def extend (call : Call) (more : List Expr) (form : CallForm) (range : Range) : Option Call :=
  match call.form with
  | .direct => some { call with args := call.args ++ more, form := form, range := range }
  | _ => none

/-- The call that an expression is, standing in a range that may be wider than its own. -/
def within (ctx : Context) (range : Range) : Expr → Option Call
  | .paren _ inner => within ctx range inner
  | .var r name => (ctx.resolve name).map fun function => ⟨function, r, [], .direct, range⟩
  | .app _ fn args => (within ctx fn.range fn).bind (·.extend args .direct range)
  | .binary _ symbol left right =>
    if symbol == "|>" then (within ctx right.range right).bind (·.extend [left] .pipeRight range)
    else if symbol == "<|" then (within ctx left.range left).bind (·.extend [right] .pipeLeft range)
    else none
  | _ => none

/-- The call that an expression is. A reference is a call without arguments. -/
def ofExpr? (ctx : Context) (e : Expr) : Option Call := within ctx e.range e

/-- The call is one of this function. -/
def isOf (call : Call) (path : ModuleName) (name : String) : Bool := call.function == ⟨path, name⟩

/-- The argument with an index. -/
def arg? (call : Call) (index : Nat) : Option Expr := call.args[index]?

/-- The argument is written behind the function and the arguments before it, not before a pipe. -/
def argIsAdjacent (call : Call) (index : Nat) : Bool :=
  match call.form with
  | .direct => index < call.args.length
  | .pipeRight | .pipeLeft => index + 1 < call.args.length

end Call

namespace Context

/-- The arguments of an expression that is a call of this function. -/
def argsOfCall? (ctx : Context) (e : Expr) (path : ModuleName) (name : String) :
    Option (List Expr) :=
  match Call.ofExpr? ctx e with
  | some call => if call.isOf path name then some call.args else none
  | none => none

/-- The argument of an expression that is a call of this function with a single one. -/
def argOfCall? (ctx : Context) (e : Expr) (path : ModuleName) (name : String) : Option Expr :=
  match ctx.argsOfCall? e path name with
  | some [arg] => some arg
  | _ => none

end Context

end Terse
