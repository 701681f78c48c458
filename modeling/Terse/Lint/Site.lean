import Terse.Tree.Module

/-!
# Sites

The places of a module that rules look at: every expression, in the order of the text, with the
variables that are bound around it, and whether it could be any expression without parentheses.
-/

namespace Terse

/-- An expression in its place. -/
structure Site where
  expr : Expr
  /-- The variables bound around the expression, the outer ones first. -/
  scope : List String
  isFree : Bool
deriving Repr, Inhabited

namespace Expr

mutual

/-- The sites of an expression and of all its sub-expressions, each before its own parts. -/
def sites (scope : List String) (isFree : Bool) : Expr → List Site
  | e@(unit _) | e@(literal _ _) | e@(var _ _) | e@(operatorFn _ _) | e@(accessor _ _) =>
    [⟨e, scope, isFree⟩]
  | e@(app _ fn args) => ⟨e, scope, isFree⟩ :: (fn.sites scope false ++ sitesOfAll scope false args)
  | e@(binary _ _ left right) =>
    ⟨e, scope, isFree⟩ :: (left.sites scope false ++ right.sites scope false)
  | e@(negate _ inner) => ⟨e, scope, isFree⟩ :: inner.sites scope false
  | e@(paren _ inner) => ⟨e, scope, isFree⟩ :: inner.sites scope true
  | e@(list _ items) => ⟨e, scope, isFree⟩ :: sitesOfAll scope true items
  | e@(tuple _ items) => ⟨e, scope, isFree⟩ :: sitesOfAll scope true items
  | e@(record _ setters) => ⟨e, scope, isFree⟩ :: sitesOfSetters scope setters
  | e@(update _ _ setters) => ⟨e, scope, isFree⟩ :: sitesOfSetters scope setters
  | e@(access _ owner _) => ⟨e, scope, isFree⟩ :: owner.sites scope false
  | e@(cond _ condition thenBranch elseBranch) =>
    ⟨e, scope, isFree⟩ ::
      (condition.sites scope true ++ thenBranch.sites scope true ++ elseBranch.sites scope true)
  | e@(case _ scrutinee branches) =>
    ⟨e, scope, isFree⟩ :: (scrutinee.sites scope true ++ sitesOfBranches scope branches)
  | e@(lambda _ params body) =>
    ⟨e, scope, isFree⟩ :: body.sites (scope ++ Pattern.boundVarsAll params) true

/-- The sites of a list of expressions. -/
def sitesOfAll (scope : List String) (isFree : Bool) : List Expr → List Site
  | [] => []
  | e :: es => e.sites scope isFree ++ sitesOfAll scope isFree es

/-- The sites of the values of setters. -/
def sitesOfSetters (scope : List String) : List Setter → List Site
  | [] => []
  | .mk _ value :: ss => value.sites scope true ++ sitesOfSetters scope ss

/-- The sites of the bodies of branches, each with the variables of its own pattern. -/
def sitesOfBranches (scope : List String) : List Branch → List Site
  | [] => []
  | .mk pattern body :: bs =>
    body.sites (scope ++ pattern.boundVars) true ++ sitesOfBranches scope bs

end

end Expr

/-- The sites of a value: its body stands free, in the scope of its parameters. -/
def ValueDecl.sites (v : ValueDecl) : List Site :=
  v.body.sites (Pattern.boundVarsAll v.params) true

/-- The sites of a module. -/
def Module.sites (m : Module) : List Site := m.values.flatMap ValueDecl.sites

end Terse
