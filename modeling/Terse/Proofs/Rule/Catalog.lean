import Terse.Proofs.Rule.Boolean
import Terse.Proofs.Rule.Collection
import Terse.Proofs.Rule.Conditional
import Terse.Proofs.Rule.Effect
import Terse.Proofs.Rule.Function
import Terse.Proofs.Rule.List
import Terse.Proofs.Rule.Number
import Terse.Proofs.Rule.String
import Terse.Proofs.Rule.Wrapped
import Terse.Rule.Catalog

/-!
# All rules fit

Whatever a rule finds at a nested node fits the node; so does what the first rule that reports
finds there.
-/

namespace Terse.Rule

variable {place : Location → Prop}

/-- What a known rule finds fits into the node. -/
theorem ofCode_fits (code : RuleCode) : (ofCode code).Fits place := by
  cases code with
  | booleanOperators => exact booleanOperators_fits
  | notCalls => exact notCalls_fits
  | equality => exact equality_fits
  | ifExpressions => exact ifExpressions_fits
  | caseExpressions => exact caseExpressions_fits
  | recordUpdate => exact recordUpdate_fits
  | arithmetic => exact arithmetic_fits
  | numberNegation => exact numberNegation_fits
  | comparison => exact comparison_fits
  | operatorFunctions => exact operatorFunctions_fits
  | appliedLambda => exact appliedLambda_fits
  | basics => exact basics_fits
  | list => exact Lists.rule_fits
  | string => exact Strings.rule_fits
  | maybe => exact Family.rule_fits Wrapped.maybeFamily_fits
  | result => exact Family.rule_fits Wrapped.resultFamily_fits
  | set => exact Family.rule_fits Collection.setFamily_fits
  | dict => exact Family.rule_fits Collection.dictFamily_fits
  | cmd => exact Family.rule_fits Effect.cmdFamily_fits
  | sub => exact Family.rule_fits Effect.subFamily_fits

theorem code_ofCode (code : RuleCode) : (ofCode code).code = code := by
  cases code <;> rfl

/-- The catalog has the rule of every code. -/
theorem ofCode_mem_all (code : RuleCode) : ofCode code ∈ all :=
  List.mem_map_of_mem (by cases code <;> decide)

/-- All rules of the list are known ones, so what they find fits. -/
theorem fits_of_mem_all {rule : Rule} (h : rule ∈ all) : rule.Fits place := by
  rcases List.mem_map.mp h with ⟨code, -, rfl⟩
  exact ofCode_fits code

/-- So does what the first rule finds that reports at a node. -/
theorem firstFinding_fits {rules : List Rule} (hrules : rules ⊆ all) (ctx : Context) {e : Expr}
    (he : e.Nested place) : Finds place e.range (firstFinding rules ctx e) := by
  intro f hf
  rcases List.exists_of_findSome?_eq_some hf with ⟨rule, hrule, hf⟩
  split at hf
  · exact fits_of_mem_all (hrules hrule) ctx e he f hf
  · cases hf

end Terse.Rule
