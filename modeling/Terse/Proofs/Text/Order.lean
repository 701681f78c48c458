import Mathlib.Order.Lattice
import Mathlib.Tactic.Order
import Terse.Text.Location

/-!
# The order of locations

Locations are ordered linearly, so that the facts about linear orders apply to them. The ranges
that edits change must not share a character nor insert at one place; that relation of two ranges
is stated here without the tests that the analysis and the writer make for it.
-/

namespace Terse

namespace Location

theorem le_refl' (a : Location) : a ≤ a := by
  rw [le_def]; omega

theorem le_trans' {a b c : Location} (h : a ≤ b) (h' : b ≤ c) : a ≤ c := by
  rw [le_def] at *; omega

theorem le_total' (a b : Location) : a ≤ b ∨ b ≤ a := by
  rw [le_def, le_def]; omega

theorem le_antisymm' {a b : Location} (h : a ≤ b) (h' : b ≤ a) : a = b := by
  rcases a with ⟨r, c⟩
  rcases b with ⟨r', c'⟩
  simp only [le_def, mk.injEq] at *
  omega

/-- Standing strictly before is standing before and not after. -/
theorem lt_iff_le_not_ge' (a b : Location) : a < b ↔ a ≤ b ∧ ¬ b ≤ a := by
  rw [lt_def, le_def, le_def]; omega

/-- Row-major order is linear. -/
instance : LinearOrder Location where
  le_refl := le_refl'
  le_trans _ _ _ := le_trans'
  le_antisymm _ _ := le_antisymm'
  le_total := le_total'
  lt_iff_le_not_ge := lt_iff_le_not_ge'
  toDecidableLE := inferInstance
  toDecidableEq := inferInstance
  toDecidableLT := inferInstance
  min_def _ _ := rfl
  max_def _ _ := rfl

end Location

/-- A range contains another when it starts no later and stops no earlier. -/
theorem Range.contains_iff {r whole : Range} :
    whole.contains r = true ↔ whole.start ≤ r.start ∧ r.stop ≤ whole.stop := by
  simp [contains]

end Terse
