import Terse.View.Equality
import Terse.View.Literal

/-!
# Known functions

Functions that are known from their text: the identity, and functions that return one value
whatever they are given.
-/

namespace Terse.Context

/-- The body is the variable that the parameter binds. -/
def returnsParam (param : Pattern) (body : Expr) : Bool :=
  match param.stripParens, body.stripParens with
  | .var _ p, .var _ name => !name.isQualified && name.name == p
  | _, _ => false

/-- The expression is the identity: by its name, or as a function that returns its parameter. -/
def isIdentity (ctx : Context) (e : Expr) : Bool :=
  ctx.isReference e Core.basics "identity" ||
    match e.stripParens with
    | .lambda _ [param] body => returnsParam param body
    | _ => false

/-- The value that a function of one argument returns in any case. -/
def constant? (ctx : Context) (e : Expr) : Option Expr :=
  match e.stripParens with
  | .app _ fn [value] => if ctx.isReference fn Core.basics "always" then some value else none
  | .lambda _ [param] body => if param.ignoresValue then some body else none
  | _ => none

/-- The expression is a function that always returns this value. -/
def isAlwaysConstant (ctx : Context) (e value : Expr) : Bool :=
  match ctx.constant? e with
  | some c => ctx.areEqual c value
  | none => false

/-- The expression is a function that always returns this boolean. -/
def isAlwaysBool (ctx : Context) (e : Expr) (value : Bool) : Bool :=
  match ctx.constant? e with
  | some c => ctx.bool? c == some value
  | none => false

end Terse.Context
