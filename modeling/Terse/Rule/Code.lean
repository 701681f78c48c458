import Terse.Text.Letter

/-!
# Rule codes

The families of rules, with the code, the name and the description that each is known by.
-/

namespace Terse

/-- A family of rules. -/
inductive RuleCode where
  | booleanOperators | notCalls | equality | ifExpressions | caseExpressions | recordUpdate
  | arithmetic | numberNegation | comparison | operatorFunctions | appliedLambda | basics | list
  | string | maybe | result | set | dict | cmd | sub
deriving DecidableEq, Repr, Inhabited

namespace RuleCode

/-- Every family, in the order of the codes. -/
def all : List RuleCode :=
  [booleanOperators, notCalls, equality, ifExpressions, caseExpressions, recordUpdate, arithmetic,
   numberNegation, comparison, operatorFunctions, appliedLambda, basics, list, string, maybe,
   result, set, dict, cmd, sub]

/-- The code that reports and configurations use. -/
def code : RuleCode → String
  | booleanOperators => "SIM001"
  | notCalls => "SIM002"
  | equality => "SIM003"
  | ifExpressions => "SIM004"
  | caseExpressions => "SIM005"
  | recordUpdate => "SIM006"
  | arithmetic => "SIM007"
  | numberNegation => "SIM008"
  | comparison => "SIM009"
  | operatorFunctions => "SIM010"
  | appliedLambda => "SIM011"
  | basics => "SIM012"
  | list => "SIM013"
  | string => "SIM014"
  | maybe => "SIM015"
  | result => "SIM016"
  | set => "SIM017"
  | dict => "SIM018"
  | cmd => "SIM019"
  | sub => "SIM020"

/-- The name of a family. -/
def name : RuleCode → String
  | booleanOperators => "boolean-operators"
  | notCalls => "not-calls"
  | equality => "equality"
  | ifExpressions => "if-expressions"
  | caseExpressions => "case-expressions"
  | recordUpdate => "record-update"
  | arithmetic => "arithmetic"
  | numberNegation => "number-negation"
  | comparison => "comparison"
  | operatorFunctions => "prefix-operators"
  | appliedLambda => "applied-lambda"
  | basics => "basics"
  | list => "list"
  | string => "string"
  | maybe => "maybe"
  | result => "result"
  | set => "set"
  | dict => "dict"
  | cmd => "cmd"
  | sub => "sub"

/-- What a family simplifies. -/
def description : RuleCode → String
  | booleanOperators =>
    "Boolean operators with a literal operand. `True || x` is `True`, `x && True` is `x`."
  | notCalls =>
    "Calls to `not` on literals, `not (not x)`, and `not >> not` in composition chains."
  | equality =>
    "Equality with booleans (`x == True`), with itself (`x == x`), and with negated sides."
  | ifExpressions =>
    "If expressions whose condition is a literal, whose branches are equal, or that return the condition."
  | caseExpressions =>
    "Case expressions whose branches are all the same, or that match on a boolean."
  | recordUpdate => "Record updates that set a field to its current value."
  | arithmetic => "Arithmetic with identity or absorbing elements (`+ 0`, `* 1`, `* 0`, `/ 1`)."
  | numberNegation => "Numbers negated twice."
  | comparison => "Comparisons between two number literals."
  | operatorFunctions => "Prefix operators applied to both operands: `(+) a b` is `a + b`."
  | appliedLambda => "Lambdas applied directly to an argument they ignore."
  | basics => "Calls to `identity` and `always`, and composition with them."
  | list =>
    "List functions on empty or literal lists, with identity or constant functions, and list concatenation."
  | string =>
    "String functions on empty or literal strings, and concatenation with the empty string."
  | maybe => "Maybe functions on `Nothing`/`Just` values or with identity functions."
  | result => "Result functions on `Ok`/`Err` values or with identity functions."
  | set => "Set functions on `Set.empty` or with identity/constant functions."
  | dict => "Dict functions on `Dict.empty`."
  | cmd =>
    "`Cmd.batch` with zero, one, or `Cmd.none` elements, and `Cmd.map` on identity or `Cmd.none`."
  | sub =>
    "`Sub.batch` with zero, one, or `Sub.none` elements, and `Sub.map` on identity or `Sub.none`."

/-- The text in small ASCII letters. -/
def lowercase (cs : List Char) : List Char := cs.map Char.toLower

/-- The family whose code a text spells, in letters of either case and with space around it. -/
def ofText? (text : String) : Option RuleCode :=
  all.find? fun c => lowercase c.code.toList == lowercase (Letter.trim text.toList)

end RuleCode

end Terse
