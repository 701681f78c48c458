import Terse.Name
import Terse.Text.Location
import Terse.Tree.Literal

/-!
# Patterns

What stands before the arrow of a branch, and what parameters are made of. Every pattern knows its
range in the source.
-/

namespace Terse

/-- A pattern with its range. -/
inductive Pattern where
  /-- The wildcard `_`. -/
  | wild (range : Range)
  /-- The unit `()`. -/
  | unit (range : Range)
  | var (range : Range) (name : String)
  | literal (range : Range) (value : Literal)
  /-- A constructor with its arguments. -/
  | ctor (range : Range) (name : QualifiedName) (args : List Pattern)
  | tuple (range : Range) (items : List Pattern)
  | list (range : Range) (items : List Pattern)
  /-- A list by its head and its tail. -/
  | cons (range : Range) (head tail : Pattern)
  | record (range : Range) (fields : List (Located String))
  /-- A pattern and a name for all that it matches. -/
  | named (range : Range) (inner : Pattern) (name : Located String)
  | paren (range : Range) (inner : Pattern)
deriving Repr, Inhabited

namespace Pattern

/-- Where the pattern stands. -/
def range : Pattern → Range
  | wild r | unit r | var r _ | literal r _ | ctor r _ _ | tuple r _ | list r _ | cons r _ _
  | record r _ | named r _ _ | paren r _ => r

/-- The pattern inside all parentheses around it. -/
def stripParens : Pattern → Pattern
  | paren _ inner => inner.stripParens
  | p => p

mutual

/-- The pattern binds nothing and looks into nothing: wildcards and units, alone, in tuples and as
the arguments of constructors. -/
def ignoresValue : Pattern → Bool
  | wild _ | unit _ => true
  | paren _ inner => inner.ignoresValue
  | tuple _ items => allIgnoreValue items
  | ctor _ _ args => allIgnoreValue args
  | _ => false

/-- All patterns of a list bind nothing and look into nothing. -/
def allIgnoreValue : List Pattern → Bool
  | [] => true
  | p :: ps => p.ignoresValue && allIgnoreValue ps

end

mutual

/-- The pattern matches every value and binds nothing. -/
def isCatchAll : Pattern → Bool
  | wild _ | unit _ => true
  | paren _ inner => inner.isCatchAll
  | tuple _ items => allCatchAll items
  | _ => false

/-- All patterns of a list match every value and bind nothing. -/
def allCatchAll : List Pattern → Bool
  | [] => true
  | p :: ps => p.isCatchAll && allCatchAll ps

end

mutual

/-- The variables that the pattern binds, in source order. -/
def boundVars : Pattern → List String
  | wild _ | unit _ | literal _ _ => []
  | var _ name => [name]
  | record _ fields => fields.map (·.value)
  | named _ inner name => inner.boundVars ++ [name.value]
  | ctor _ _ args => boundVarsAll args
  | tuple _ items => boundVarsAll items
  | list _ items => boundVarsAll items
  | cons _ head tail => head.boundVars ++ tail.boundVars
  | paren _ inner => inner.boundVars

/-- The variables that the patterns of a list bind, in source order. -/
def boundVarsAll : List Pattern → List String
  | [] => []
  | p :: ps => p.boundVars ++ boundVarsAll ps

end

mutual

/-- The constructors that the pattern names, the outer ones first. -/
def constructors : Pattern → List QualifiedName
  | ctor _ name args => name :: constructorsAll args
  | tuple _ items => constructorsAll items
  | list _ items => constructorsAll items
  | cons _ head tail => head.constructors ++ tail.constructors
  | named _ inner _ => inner.constructors
  | paren _ inner => inner.constructors
  | wild _ | unit _ | var _ _ | literal _ _ | record _ _ => []

/-- The constructors that the patterns of a list name. -/
def constructorsAll : List Pattern → List QualifiedName
  | [] => []
  | p :: ps => p.constructors ++ constructorsAll ps

end

mutual

/-- The two patterns are the same apart from parentheses and ranges. -/
def sameShape : Pattern → Pattern → Bool
  | paren _ inner, q => inner.sameShape q
  | wild _, q => match q.stripParens with
    | wild _ => true
    | _ => false
  | unit _, q => match q.stripParens with
    | unit _ => true
    | _ => false
  | var _ a, q => match q.stripParens with
    | var _ b => a == b
    | _ => false
  | literal _ a, q => match q.stripParens with
    | literal _ b => a.sameValue b
    | _ => false
  | ctor _ name args, q => match q.stripParens with
    | ctor _ name' args' => name == name' && sameShapes args args'
    | _ => false
  | tuple _ items, q => match q.stripParens with
    | tuple _ items' => sameShapes items items'
    | _ => false
  | list _ items, q => match q.stripParens with
    | list _ items' => sameShapes items items'
    | _ => false
  | cons _ head tail, q => match q.stripParens with
    | cons _ head' tail' => head.sameShape head' && tail.sameShape tail'
    | _ => false
  | record _ fields, q => match q.stripParens with
    | record _ fields' => fields.map (·.value) == fields'.map (·.value)
    | _ => false
  | named _ inner name, q => match q.stripParens with
    | named _ inner' name' => name.value == name'.value && inner.sameShape inner'
    | _ => false

/-- The two lists hold the same patterns, apart from parentheses and ranges. -/
def sameShapes : List Pattern → List Pattern → Bool
  | [], [] => true
  | p :: ps, q :: qs => p.sameShape q && sameShapes ps qs
  | _, _ => false

end

end Pattern

end Terse
