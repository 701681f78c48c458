import Terse.Proofs.Grammar.Ranges

/-!
# Operators and their precedence

Without parentheses an operator takes only those operators as an operand that its level and the
grouping of its row let it have: reading stops behind an operand as soon as a looser operator
follows. Every operation that is read from a text is grouped so.
-/

namespace Terse

namespace Precedence

/-- An operator stands as the left operand of another one: it binds tighter, or as tight and does
not group to the right. -/
def StandsLeft (inner outer : Precedence) : Prop :=
  outer.level < inner.level ∨ inner.level = outer.level ∧ inner.associativity ≠ .right

/-- An operator stands as the right operand of another one: it binds tighter, or as tight and the
other one groups to the right. -/
def StandsRight (inner outer : Precedence) : Prop :=
  outer.level < inner.level ∨ inner.level = outer.level ∧ outer.associativity = .right

variable {inner outer : Precedence}

theorem level_lt_rightLeast_iff : outer.level < inner.rightLeast ↔ inner.StandsLeft outer := by
  unfold rightLeast StandsLeft
  cases inner.associativity <;> simp <;> omega

theorem rightLeast_le_level_iff : outer.rightLeast ≤ inner.level ↔ inner.StandsRight outer := by
  unfold rightLeast StandsRight
  cases outer.associativity with
  | right =>
    simp only [and_true]
    omega
  | left | none =>
    simp only [reduceCtorEq, and_false, or_false]
    exact Nat.add_one_le_iff

end Precedence

namespace Expr

variable {symbol inner : String} {left right : Expr} {r : Range}

theorem Precedes.standsLeft (h : (binary r inner left right).Precedes symbol) :
    (Precedence.ofSymbol inner).StandsLeft (Precedence.ofSymbol symbol) :=
  Precedence.level_lt_rightLeast_iff.mp h.2

theorem AtLeast.standsRight
    (h : (binary r inner left right).AtLeast (Precedence.ofSymbol symbol).rightLeast) :
    (Precedence.ofSymbol inner).StandsRight (Precedence.ofSymbol symbol) :=
  Precedence.rightLeast_le_level_iff.mp h.1

end Expr

/-- The parts of every node of a tree that is read from a text fit in it. -/
theorem ReadFrom.apt {text : String} {root n : Node} (h : ReadFrom text root)
    (hn : Node.Under root n) : n.Apt := by
  obtain ⟨ts, -, hroot⟩ := h.standsIn
  obtain ⟨own, -, hstands⟩ := hroot.of_under hn
  exact hstands.1.1

/-- An operator without parentheses that is an operand of an operator which is read from a text
binds tighter than that one; or it binds as tight, and on the left it does not group to the right,
on the right the other one does. -/
theorem ReadFrom.operators_grouped {text symbol : String} {root : Node} {left right : Expr}
    {r : Range} (h : ReadFrom text root)
    (hn : Node.Under root (.expr (.binary r symbol left right))) :
    (∀ r' inner a b, left = .binary r' inner a b →
        (Precedence.ofSymbol inner).StandsLeft (Precedence.ofSymbol symbol)) ∧
      ∀ r' inner a b, right = .binary r' inner a b →
        (Precedence.ofSymbol inner).StandsRight (Precedence.ofSymbol symbol) := by
  have hapt : left.Precedes symbol ∧ right.AtLeast (Precedence.ofSymbol symbol).rightLeast :=
    h.apt hn
  obtain ⟨hleft, hright⟩ := hapt
  constructor
  · intro r' inner a b hbinary
    rw [hbinary] at hleft
    exact hleft.standsLeft
  · intro r' inner a b hbinary
    rw [hbinary] at hright
    exact hright.standsRight

/-- An operation with operations on both sides has these operators, in the order of the text. -/
def Expr.hasOperators (first second third : String) : Expr → Bool
  | .binary _ symbol (.binary _ symbol' _ _) (.binary _ symbol'' _ _) =>
    symbol' == first && symbol == second && symbol'' == third
  | _ => false

/-- In a row of both pipes the earlier one is the left operand of the later one. -/
theorem ReadFrom.operators_grouped_pipes : ∃ r left right,
    ReadFrom "x |> f <| y ++ z" (.expr (.binary r "<|" left right)) ∧
      (∃ r' a b, left = .binary r' "|>" a b) ∧ (∃ r' a b, right = .binary r' "++" a b) ∧
      (Precedence.ofSymbol "|>").StandsLeft (Precedence.ofSymbol "<|") ∧
      (Precedence.ofSymbol "++").StandsRight (Precedence.ofSymbol "<|") := by
  have hread : (Expr.parse "x |> f <| y ++ z").toOption.any (Expr.hasOperators "|>" "<|" "++") =
      true := by decide +kernel
  obtain ⟨e, hparse, hshape⟩ := exists_ok_of_any hread
  unfold Expr.hasOperators at hshape
  split at hshape
  · rename_i r symbol r' symbol' a b r'' symbol'' c d
    simp only [Bool.and_eq_true, beq_iff_eq] at hshape
    obtain ⟨⟨rfl, rfl⟩, rfl⟩ := hshape
    have hroot : ReadFrom "x |> f <| y ++ z"
        (.expr (.binary r "<|" (.binary r' "|>" a b) (.binary r'' "++" c d))) := .expr hparse
    obtain ⟨hleft, hright⟩ := hroot.operators_grouped .root
    exact ⟨r, _, _, hroot, ⟨r', a, b, rfl⟩, ⟨r'', c, d, rfl⟩, hleft r' "|>" a b rfl,
      hright r'' "++" c d rfl⟩
  · cases hshape

end Terse
