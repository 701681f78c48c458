import Terse.View.Call
import Terse.View.Chain
import Terse.View.Function

/-!
# Rules

A rule looks at a node of certain forms and either reports a finding there or does not.
-/

namespace Terse

/-- A family of simplifications. -/
structure Rule where
  code : RuleCode
  /-- The forms of nodes that the rule looks at. -/
  forms : List Form
  check : Context → Expr → Option Finding

/-- A finding with a fix. -/
def Finding.fixing (rule : RuleCode) (message : String) (details : List String) (range : Range)
    (edits : List Edit) : Finding :=
  ⟨rule, message, details, range, some edits⟩

end Terse
