import Terse.View.Context

/-!
# Equal expressions

Two expressions are equal when they differ only in parentheses, in places, and in how they write
names with the same meaning. Literals are equal when their values are.
-/

namespace Terse.Context

/-- Two references mean the same; if neither means anything, they are written alike. -/
def sameReference (ctx : Context) (a b : QualifiedName) : Bool :=
  match ctx.resolve a, ctx.resolve b with
  | some x, some y => x == y
  | none, none => a == b
  | _, _ => false

mutual

/-- Two expressions are equal. -/
def areEqual (ctx : Context) : Expr → Expr → Bool
  | .paren _ inner, other => areEqual ctx inner other
  | .unit _, other => match other.stripParens with
    | .unit _ => true
    | _ => false
  | .literal _ a, other => match other.stripParens with
    | .literal _ b => a.sameValue b
    | _ => false
  | .var _ a, other => match other.stripParens with
    | .var _ b => ctx.sameReference a b
    | _ => false
  | .operatorFn _ a, other => match other.stripParens with
    | .operatorFn _ b => a == b
    | _ => false
  | .accessor _ a, other => match other.stripParens with
    | .accessor _ b => a == b
    | _ => false
  | .app _ fn args, other => match other.stripParens with
    | .app _ fn' args' => areEqual ctx fn fn' && allEqual ctx args args'
    | _ => false
  | .binary _ symbol left right, other => match other.stripParens with
    | .binary _ symbol' left' right' =>
      symbol == symbol' && areEqual ctx left left' && areEqual ctx right right'
    | _ => false
  | .negate _ inner, other => match other.stripParens with
    | .negate _ inner' => areEqual ctx inner inner'
    | _ => false
  | .list _ items, other => match other.stripParens with
    | .list _ items' => allEqual ctx items items'
    | _ => false
  | .tuple _ items, other => match other.stripParens with
    | .tuple _ items' => allEqual ctx items items'
    | _ => false
  | .record _ setters, other => match other.stripParens with
    | .record _ setters' => settersEqual ctx setters setters'
    | _ => false
  | .update _ base setters, other => match other.stripParens with
    | .update _ base' setters' => base.value == base'.value && settersEqual ctx setters setters'
    | _ => false
  | .access _ owner field, other => match other.stripParens with
    | .access _ owner' field' => field.value == field'.value && areEqual ctx owner owner'
    | _ => false
  | .cond _ condition thenBranch elseBranch, other => match other.stripParens with
    | .cond _ condition' thenBranch' elseBranch' =>
      areEqual ctx condition condition' && areEqual ctx thenBranch thenBranch' &&
        areEqual ctx elseBranch elseBranch'
    | _ => false
  | .case _ scrutinee branches, other => match other.stripParens with
    | .case _ scrutinee' branches' =>
      areEqual ctx scrutinee scrutinee' && branchesEqual ctx branches branches'
    | _ => false
  | .lambda _ params body, other => match other.stripParens with
    | .lambda _ params' body' => Pattern.sameShapes params params' && areEqual ctx body body'
    | _ => false

/-- The expressions of two lists are equal one by one. -/
def allEqual (ctx : Context) : List Expr → List Expr → Bool
  | [], [] => true
  | a :: as, b :: bs => areEqual ctx a b && allEqual ctx as bs
  | _, _ => false

/-- The setters of two lists set the same fields to equal values. -/
def settersEqual (ctx : Context) : List Setter → List Setter → Bool
  | [], [] => true
  | .mk field value :: ss, .mk field' value' :: ss' =>
    field.value == field'.value && areEqual ctx value value' && settersEqual ctx ss ss'
  | _, _ => false

/-- The branches of two lists match the same patterns and have equal bodies. -/
def branchesEqual (ctx : Context) : List Branch → List Branch → Bool
  | [], [] => true
  | .mk pattern body :: bs, .mk pattern' body' :: bs' =>
    pattern.sameShape pattern' && areEqual ctx body body' && branchesEqual ctx bs bs'
  | _, _ => false

end

end Terse.Context
