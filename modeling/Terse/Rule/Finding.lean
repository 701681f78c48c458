import Terse.Edit.Apply
import Terse.Rule.Code

/-!
# Findings

A simplification that a rule offers: what it is, where it is, and the edits that make it.
-/

namespace Terse

/-- A simplification found in a module. -/
structure Finding where
  rule : RuleCode
  message : String
  details : List String
  range : Range
  fix : Option (List Edit)
deriving DecidableEq, Repr, Inhabited

namespace Finding

/-- The edits of the fix; none without a fix. -/
def edits (f : Finding) : List Edit := f.fix.getD []

/-- The ranges that the fix changes. -/
def editRanges (f : Finding) : List Range := f.edits.map Edit.range

/-- The first two edits of the fix that clash, by their ranges. -/
def clash? (f : Finding) : Option (Range × Range) := Range.firstClash f.editRanges

/-- The finding as it is reported: without its fix if that clashes with itself. -/
def checked (f : Finding) : Finding :=
  match f.clash? with
  | some _ => { f with fix := none }
  | none => f

/-- The line that shows a finding. -/
def render (f : Finding) : String := s!"{f.rule.code} {f.range.render} {f.message}"

/-- Apply the fix of a finding to a text. -/
def applyTo (f : Finding) (text : String) : Except EditError String := applyEdits text f.edits

end Finding

/-- Apply the fixes of all findings to a text at once. -/
def applyFixes (text : String) (findings : List Finding) : Except EditError String :=
  applyEdits text (findings.flatMap Finding.edits)

end Terse
