import Terse.Edit.Basic
import Terse.Tree.Expr

/-!
# Composition chains

Functions composed by one operator, as a flat list of terms. A chain in parentheses inside a chain
stays a single term.
-/

namespace Terse

/-- A chain of composed functions. -/
structure Chain where
  symbol : String
  /-- The functions, in source order. -/
  terms : List Expr
  range : Range
deriving Repr, Inhabited

namespace Chain

/-- The operators that compose functions. -/
def symbols : List String := [">>", "<<"]

/-- The terms of an expression in a chain of one operator. -/
def termsOf (symbol : String) : Expr → List Expr
  | .binary r s left right =>
    if s == symbol then termsOf symbol left ++ termsOf symbol right
    else [.binary r s left right]
  | e => [e]

/-- The chain that an expression is. -/
def ofExpr? (e : Expr) : Option Chain :=
  match e with
  | .binary r symbol _ _ =>
    if symbols.contains symbol then some ⟨symbol, termsOf symbol e, r⟩ else none
  | _ => none

/-- The terms in the order that they are applied in. -/
def applicationOrder (c : Chain) : List Expr :=
  if c.symbol == ">>" then c.terms else c.terms.reverse

/-- The edits that remove the terms from `first` to `last` and leave a chain; if no term is left,
the chain becomes the replacement. -/
def removeTerms (c : Chain) (first last : Nat) (replacement : String) : List Edit :=
  if first = 0 ∧ last + 1 = c.terms.length then [.replace c.range replacement]
  else match c.terms[last + 1]?, c.terms[first]?, c.terms[last]?, c.terms[first - 1]? with
    | some next, some start, _, _ => [.remove ⟨start.range.start, next.range.start⟩]
    | none, _, some stop, some before => [.remove ⟨before.range.stop, stop.range.stop⟩]
    | _, _, _, _ => []

end Chain

end Terse
