import Terse.Proofs.Rule.Finding
import Terse.Proofs.Rule.Family
import Terse.Rule.Number

/-!
# Simplifications of arithmetic fit
-/

namespace Terse.Rule

variable {place : Location → Prop}

/-! ## Operations -/

section

variable (ctx : Context) {whole : Range} {symbol : String} {left right : Expr}
  (h : Expr.Nested place (.binary whole symbol left right))
include h

/-- Keeping an operand fits into the operation. -/
theorem keepOperand_fits {message detail : String} {kept : Expr}
    (hkept : kept.PartOf place whole) :
    Finds place whole (some (keepOperand ctx whole message detail kept)) :=
  finds_some.mpr (fits_fixing h.proper.fits_self (ctx.keepOnly_fits h.proper hkept.stripParens))

/-- The operand beside zero is kept. -/
theorem checkPlus_fits : Finds place whole (checkPlus ctx whole left right) := by
  unfold checkPlus
  dsimp only
  refine finds_ite (fun _ => ?_) fun _ => finds_ite (fun _ => ?_) fun _ => finds_none
  · exact keepOperand_fits ctx h h.left_part
  · exact keepOperand_fits ctx h h.right_part

/-- Without a zero on its right the left operand is kept; a zero on its left makes it a negation. -/
theorem checkMinus_fits : Finds place whole (checkMinus ctx whole left right) := by
  unfold checkMinus
  refine finds_ite (fun _ => ?_) fun _ => finds_ite (fun _ => ?_) fun _ => finds_none
  · exact keepOperand_fits ctx h h.left_part
  · exact finds_some.mpr (fits_fixing h.proper.fits_self (ctx.replaceBy_fits h.proper _ _))

/-- The operand beside one is kept, and of an operation with zero the zero. -/
theorem checkTimes_fits : Finds place whole (checkTimes ctx whole left right) := by
  unfold checkTimes
  dsimp only
  refine finds_ite (fun _ => ?_) fun _ => finds_ite (fun _ => ?_) fun _ =>
    finds_ite (fun _ => ?_) fun _ => finds_ite (fun _ => ?_) fun _ => finds_none
  · exact keepOperand_fits ctx h h.left_part
  · exact keepOperand_fits ctx h h.right_part
  · exact keepOperand_fits ctx h h.right_part
  · exact keepOperand_fits ctx h h.left_part

theorem checkDivide_fits : Finds place whole (checkDivide ctx whole left right) := by
  unfold checkDivide
  refine finds_ite (fun _ => ?_) fun _ => finds_none
  exact keepOperand_fits ctx h h.left_part

end

theorem arithmetic_fits : arithmetic.Fits place := by
  intro ctx e he
  change Finds place e.range (checkArithmetic ctx e)
  unfold checkArithmetic
  split
  · refine finds_ite (fun _ => ?_) fun _ => finds_ite (fun _ => ?_) fun _ =>
      finds_ite (fun _ => ?_) fun _ => finds_ite (fun _ => ?_) fun _ => finds_none
    · exact checkPlus_fits ctx he
    · exact checkMinus_fits ctx he
    · exact checkTimes_fits ctx he
    · exact checkDivide_fits ctx he
  · exact finds_none

/-! ## Negation -/

/-- What is negated twice is kept. -/
theorem numberNegation_fits : numberNegation.Fits place := by
  intro ctx e he
  change Finds place e.range (checkNegation ctx e)
  unfold checkNegation
  split
  · rename_i whole inner
    have hinner : inner.PartOf place whole := he.children_part List.mem_cons_self
    have hstripped := hinner.stripParens
    split
    · rename_i r value heq
      rw [heq] at hstripped
      have hvalue : value.PartOf place whole :=
        hstripped.of_lies (hstripped.1.1.children List.mem_cons_self)
      exact finds_some.mpr (fits_fixing he.proper.fits_self
        (ctx.keepOnly_fits he.proper hvalue.stripParens))
    · exact finds_none
  · exact finds_none

/-! ## Comparison -/

theorem comparison_fits : comparison.Fits place := by
  intro ctx e he
  change Finds place e.range (checkOrdering ctx e)
  unfold checkOrdering
  split
  · split
    · exact finds_some.mpr (fits_fixing he.proper.fits_self (ctx.replaceBy_fits he.proper _ _))
    · exact finds_none
  · exact finds_none

end Terse.Rule
