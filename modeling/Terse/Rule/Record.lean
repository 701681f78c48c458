import Terse.Rule.Basic

/-!
# Record updates
-/

namespace Terse.Rule

/-- The setter gives a field of the base its own value. -/
def isSelfAssignment (base : String) (s : Setter) : Bool :=
  match s.value.stripParens with
  | .access _ owner field =>
    match owner.stripParens with
    | .var _ name => !name.isQualified && name.name == base && field.value == s.field.value
    | _ => false
  | _ => false

/-- An update that sets fields to their own values. -/
def checkUpdate (_ : Context) : Expr → Option Finding
  | .update whole base setters =>
    let redundant := isSelfAssignment base.value
    match setters.find? redundant with
    | none => none
    | some first =>
      let fix := if setters.all redundant then [.replace whole base.value]
        else removeItems (setters.map fun s => (s.range, redundant s))
      some (.fixing .recordUpdate "Unnecessary field assignment"
        ["The field is being set to its own value."] first.range fix)
  | _ => none

/-- Record updates. -/
def recordUpdate : Rule := ⟨.recordUpdate, [.update], checkUpdate⟩

end Terse.Rule
