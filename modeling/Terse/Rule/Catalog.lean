import Terse.Rule.Boolean
import Terse.Rule.Collection
import Terse.Rule.Conditional
import Terse.Rule.Effect
import Terse.Rule.Function
import Terse.Rule.List
import Terse.Rule.Number
import Terse.Rule.Record
import Terse.Rule.String
import Terse.Rule.Wrapped

/-!
# All rules
-/

namespace Terse.Rule

/-- The rule of a family. -/
def ofCode : RuleCode → Rule
  | .booleanOperators => booleanOperators
  | .notCalls => notCalls
  | .equality => equality
  | .ifExpressions => ifExpressions
  | .caseExpressions => caseExpressions
  | .recordUpdate => recordUpdate
  | .arithmetic => arithmetic
  | .numberNegation => numberNegation
  | .comparison => comparison
  | .operatorFunctions => operatorFunctions
  | .appliedLambda => appliedLambda
  | .basics => basics
  | .list => Lists.rule
  | .string => Strings.rule
  | .maybe => Wrapped.maybeFamily.rule
  | .result => Wrapped.resultFamily.rule
  | .set => Collection.setFamily.rule
  | .dict => Collection.dictFamily.rule
  | .cmd => Effect.cmdFamily.rule
  | .sub => Effect.subFamily.rule

/-- Every rule, in the order of the codes. -/
def all : List Rule := RuleCode.all.map ofCode

/-- The first finding that one of some rules has at a node. -/
def firstFinding (rules : List Rule) (ctx : Context) (e : Expr) : Option Finding :=
  rules.findSome? fun r => if r.forms.contains e.form then r.check ctx e else none

end Terse.Rule
