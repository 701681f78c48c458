import Terse.Tree.Pattern

/-!
# Expressions

Expressions with their ranges, the classification of their forms, and their direct parts in source
order. Parentheses are kept in the tree, since edits have to respect them.
-/

namespace Terse

mutual

/-- An expression with its range. -/
inductive Expr where
  /-- The unit `()`. -/
  | unit (range : Range)
  | literal (range : Range) (value : Literal)
  /-- A reference to a value or a constructor. -/
  | var (range : Range) (name : QualifiedName)
  /-- An operator in parentheses, `(+)`. -/
  | operatorFn (range : Range) (symbol : String)
  /-- The function that reads a field, `.field`. -/
  | accessor (range : Range) (field : String)
  /-- A function applied to one argument or more. -/
  | app (range : Range) (fn : Expr) (args : List Expr)
  /-- An operator between two operands. -/
  | binary (range : Range) (symbol : String) (left right : Expr)
  /-- A minus sign in front of an operand. -/
  | negate (range : Range) (inner : Expr)
  | paren (range : Range) (inner : Expr)
  | list (range : Range) (items : List Expr)
  | tuple (range : Range) (items : List Expr)
  | record (range : Range) (setters : List Setter)
  /-- A record with some fields replaced. -/
  | update (range : Range) (base : Located String) (setters : List Setter)
  /-- A field of a record. -/
  | access (range : Range) (owner : Expr) (field : Located String)
  | cond (range : Range) (condition thenBranch elseBranch : Expr)
  | case (range : Range) (scrutinee : Expr) (branches : List Branch)
  | lambda (range : Range) (params : List Pattern) (body : Expr)

/-- A field and the value it is set to. -/
inductive Setter where
  | mk (field : Located String) (value : Expr)

/-- A pattern and what the case becomes when it matches. -/
inductive Branch where
  | mk (pattern : Pattern) (body : Expr)

end

deriving instance Inhabited, Repr for Expr, Setter, Branch

namespace Expr

/-- Where the expression stands. -/
def range : Expr → Range
  | unit r | literal r _ | var r _ | operatorFn r _ | accessor r _ | app r _ _ | binary r _ _ _
  | negate r _ | paren r _ | list r _ | tuple r _ | record r _ | update r _ _ | access r _ _
  | cond r _ _ _ | case r _ _ | lambda r _ _ => r

/-- The expression inside all parentheses around it. -/
def stripParens : Expr → Expr
  | paren _ inner => inner.stripParens
  | e => e

end Expr

namespace Setter

/-- The field that is set. -/
def field : Setter → Located String
  | mk f _ => f

/-- The value the field is set to. -/
def value : Setter → Expr
  | mk _ v => v

/-- From the field name to the end of the value. -/
def range (s : Setter) : Range := s.field.range.merge s.value.range

end Setter

namespace Branch

/-- What the branch matches. -/
def pattern : Branch → Pattern
  | mk p _ => p

/-- What the case becomes. -/
def body : Branch → Expr
  | mk _ b => b

end Branch

/-- The form of an expression. -/
inductive Form where
  | unit | literal | var | operatorFn | accessor | app | binary | negate | paren | list | tuple
  | record | update | access | cond | case | lambda
deriving DecidableEq, Repr, Inhabited

namespace Form

/-- Every form, in the order of the grammar. -/
def all : List Form :=
  [unit, literal, var, operatorFn, accessor, app, binary, negate, paren, list, tuple, record,
   update, access, cond, case, lambda]

/-- The display name of a form. -/
def name : Form → String
  | unit => "Unit"
  | literal => "Literal"
  | var => "Variable"
  | operatorFn => "PrefixOperator"
  | accessor => "RecordAccessFunction"
  | app => "Application"
  | binary => "Operator"
  | negate => "Negation"
  | paren => "Parenthesized"
  | list => "List"
  | tuple => "Tuple"
  | record => "Record"
  | update => "RecordUpdate"
  | access => "RecordAccess"
  | cond => "If"
  | case => "Case"
  | lambda => "Lambda"

end Form

namespace Expr

/-- The form of the expression. -/
def form : Expr → Form
  | unit _ => .unit
  | literal _ _ => .literal
  | var _ _ => .var
  | operatorFn _ _ => .operatorFn
  | accessor _ _ => .accessor
  | app _ _ _ => .app
  | binary _ _ _ _ => .binary
  | negate _ _ => .negate
  | paren _ _ => .paren
  | list _ _ => .list
  | tuple _ _ => .tuple
  | record _ _ => .record
  | update _ _ _ => .update
  | access _ _ _ => .access
  | cond _ _ _ _ => .cond
  | case _ _ _ => .case
  | lambda _ _ _ => .lambda

/-- The expression can stand as an argument without parentheses. -/
def isAtomic (e : Expr) : Bool :=
  match e with
  | app _ _ _ | binary _ _ _ _ | negate _ _ | cond _ _ _ _ | case _ _ _ | lambda _ _ _ => false
  | _ => true

/-- The direct sub-expressions in source order. -/
def children : Expr → List Expr
  | unit _ | literal _ _ | var _ _ | operatorFn _ _ | accessor _ _ => []
  | app _ fn args => fn :: args
  | binary _ _ left right => [left, right]
  | negate _ inner | paren _ inner => [inner]
  | list _ items | tuple _ items => items
  | record _ setters | update _ _ setters => setters.map Setter.value
  | access _ owner _ => [owner]
  | cond _ condition thenBranch elseBranch => [condition, thenBranch, elseBranch]
  | case _ scrutinee branches => scrutinee :: branches.map Branch.body
  | lambda _ _ body => [body]

/-- The direct sub-expressions stand where any expression fits without parentheses. Operands,
functions and arguments, negated values and accessed records do not. -/
def childrenAreFree (e : Expr) : Bool :=
  match e with
  | app _ _ _ | binary _ _ _ _ | negate _ _ | access _ _ _ => false
  | _ => true

mutual

/-- The expression and all its sub-expressions, each before its own parts. -/
def nodes : Expr → List Expr
  | e@(unit _) | e@(literal _ _) | e@(var _ _) | e@(operatorFn _ _) | e@(accessor _ _) => [e]
  | e@(app _ fn args) => e :: (fn.nodes ++ nodesOfAll args)
  | e@(binary _ _ left right) => e :: (left.nodes ++ right.nodes)
  | e@(negate _ inner) => e :: inner.nodes
  | e@(paren _ inner) => e :: inner.nodes
  | e@(list _ items) => e :: nodesOfAll items
  | e@(tuple _ items) => e :: nodesOfAll items
  | e@(record _ setters) => e :: nodesOfSetters setters
  | e@(update _ _ setters) => e :: nodesOfSetters setters
  | e@(access _ owner _) => e :: owner.nodes
  | e@(cond _ condition thenBranch elseBranch) =>
    e :: (condition.nodes ++ thenBranch.nodes ++ elseBranch.nodes)
  | e@(case _ scrutinee branches) => e :: (scrutinee.nodes ++ nodesOfBranches branches)
  | e@(lambda _ _ body) => e :: body.nodes

/-- The nodes of a list of expressions. -/
def nodesOfAll : List Expr → List Expr
  | [] => []
  | e :: es => e.nodes ++ nodesOfAll es

/-- The nodes of the values of a list of setters. -/
def nodesOfSetters : List Setter → List Expr
  | [] => []
  | .mk _ value :: ss => value.nodes ++ nodesOfSetters ss

/-- The nodes of the bodies of a list of branches. -/
def nodesOfBranches : List Branch → List Expr
  | [] => []
  | .mk _ body :: bs => body.nodes ++ nodesOfBranches bs

end

end Expr

end Terse
