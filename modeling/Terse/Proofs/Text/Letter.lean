import Terse.Text.Letter

/-!
# Capital and small letters

Capital and small letters are letters, so they can stand in a word, and no letter is both. Beyond
ASCII this is read off the tables: two of them are compared by walking through the points of both
in order.
-/

namespace Terse

/-! ## Comparing two sets -/

/-- Membership of a number in the set with these points of change, when the numbers before the
first point are members or not as `inside` says. -/
def memberFrom (inside : Bool) (n : Nat) : List Nat → Bool
  | [] => inside
  | a :: points => if a ≤ n then memberFrom (!inside) n points else inside

/-- Membership changes at every point up to the number, so it depends on how many there are. -/
theorem memberFrom_eq (inside : Bool) (n : Nat) (points : List Nat) :
    memberFrom inside n points = (inside ^^ (points.takeWhile (· ≤ n)).length % 2 == 1) := by
  induction points generalizing inside with
  | nil => simp [memberFrom]
  | cons a points ih =>
    by_cases h : a ≤ n
    · simp only [memberFrom, h, if_true, ih, decide_true, List.takeWhile_cons_of_pos,
        List.length_cons]
      rcases Nat.mod_two_eq_zero_or_one (points.takeWhile (· ≤ n)).length with hmod | hmod <;>
        cases inside <;> simp [Nat.add_mod, hmod]
    · simp [memberFrom, h]

theorem memberByPoints_eq (points : List Nat) (c : Char) :
    memberByPoints points c = memberFrom false c.toNat points := by
  rw [memberFrom_eq, memberByPoints, Bool.false_xor]

/-- A relation holds between memberships in two sets, before the first point of change and behind
each one. The fuel bounds the number of points. -/
def relatedFrom (r : Bool → Bool → Bool) : Nat → Bool → Bool → List Nat → List Nat → Bool
  | 0, _, _, _, _ => false
  | fuel + 1, x, y, as, bs =>
    r x y && match as, bs with
      | [], [] => true
      | _ :: as, [] => relatedFrom r fuel (!x) y as []
      | [], _ :: bs => relatedFrom r fuel x (!y) [] bs
      | a :: as, b :: bs =>
        if a < b then relatedFrom r fuel (!x) y as (b :: bs)
        else if b < a then relatedFrom r fuel x (!y) (a :: as) bs
        else relatedFrom r fuel (!x) (!y) as bs

/-- What the walk through the points of two sets has checked relates membership of every number. -/
theorem related_memberFrom {r : Bool → Bool → Bool} {fuel : Nat} {x y : Bool} {as bs : List Nat}
    (h : relatedFrom r fuel x y as bs = true) (n : Nat) :
    r (memberFrom x n as) (memberFrom y n bs) = true := by
  induction fuel generalizing x y as bs with
  | zero => cases h
  | succ fuel ih =>
    unfold relatedFrom at h
    rw [Bool.and_eq_true] at h
    rcases h with ⟨here, h⟩
    cases as with
    | nil =>
      cases bs with
      | nil => exact here
      | cons b bs =>
        have hlater := ih h
        by_cases hb : b ≤ n
        · simpa [memberFrom, hb] using hlater
        · simpa [memberFrom, hb] using here
    | cons a as =>
      cases bs with
      | nil =>
        have hlater := ih h
        by_cases ha : a ≤ n
        · simpa [memberFrom, ha] using hlater
        · simpa [memberFrom, ha] using here
      | cons b bs =>
        dsimp only at h
        -- the walk goes on behind the smaller one of the two points
        split at h
        · have hlater := ih h
          by_cases ha : a ≤ n
          · simpa [memberFrom, ha] using hlater
          · have hb : ¬ b ≤ n := by omega
            simpa [memberFrom, ha, hb] using here
        split at h
        · have hlater := ih h
          by_cases hb : b ≤ n
          · simpa [memberFrom, hb] using hlater
          · have ha : ¬ a ≤ n := by omega
            simpa [memberFrom, ha, hb] using here
        · -- both sets change at one point, so nothing is asked between the changes
          obtain rfl : a = b := by omega
          have hlater := ih h
          by_cases ha : a ≤ n
          · simpa [memberFrom, ha] using hlater
          · simpa [memberFrom, ha] using here

/-! ## Letters -/

namespace Letter

theorem isUpper_iff {c : Char} : c.isUpper ↔ 65 ≤ c.toNat ∧ c.toNat ≤ 90 := by
  unfold Char.isUpper
  rw [decide_eq_true_eq]
  exact Iff.rfl

theorem isLower_iff {c : Char} : c.isLower ↔ 97 ≤ c.toNat ∧ c.toNat ≤ 122 := by
  unfold Char.isLower
  rw [Bool.and_eq_true, decide_eq_true_eq, decide_eq_true_eq]
  exact Iff.rfl

theorem isAlpha_iff {c : Char} : c.isAlpha ↔ c.isUpper ∨ c.isLower := by
  unfold Char.isAlpha
  exact Bool.or_eq_true_iff

theorem isDigit_iff {c : Char} : c.isDigit ↔ 48 ≤ c.toNat ∧ c.toNat ≤ 57 := by
  unfold Char.isDigit
  rw [Bool.and_eq_true, decide_eq_true_eq, decide_eq_true_eq]
  exact Iff.rfl

/-- The walk through both tables finds no capital letter outside the letters. -/
theorem uppercasePoints_sub :
    relatedFrom (fun x y => !x || y) 4000 false false uppercasePoints alphabeticPoints = true := by
  decide +kernel

/-- The walk through both tables finds no small letter outside the letters. -/
theorem lowercasePoints_sub :
    relatedFrom (fun x y => !x || y) 4000 false false lowercasePoints alphabeticPoints = true := by
  decide +kernel

/-- The walk through both tables finds no letter that is capital and small. -/
theorem letterPoints_disjoint :
    relatedFrom (fun x y => !(x && y)) 4000 false false uppercasePoints lowercasePoints = true := by
  decide +kernel

/-- Capital letters are letters. -/
theorem isAlphabetic_of_isUppercase {c : Char} (h : isUppercase c) : isAlphabetic c := by
  unfold isUppercase at h
  unfold isAlphabetic
  split at h
  · rename_i hascii
    rw [if_pos hascii]
    exact isAlpha_iff.mpr (.inl h)
  · rename_i hascii
    have := related_memberFrom uppercasePoints_sub c.toNat
    simp_all [memberByPoints_eq]

/-- Small letters are letters. -/
theorem isAlphabetic_of_isLowercase {c : Char} (h : isLowercase c) : isAlphabetic c := by
  unfold isLowercase at h
  unfold isAlphabetic
  split at h
  · rename_i hascii
    rw [if_pos hascii]
    exact isAlpha_iff.mpr (.inr h)
  · rename_i hascii
    have := related_memberFrom lowercasePoints_sub c.toNat
    simp_all [memberByPoints_eq]

/-- No small letter is a capital letter. -/
theorem not_isUppercase_of_isLowercase {c : Char} (h : isLowercase c) : ¬ isUppercase c := by
  unfold isLowercase at h
  unfold isUppercase
  split at h
  · rename_i hascii
    rw [if_pos hascii, isUpper_iff]
    rw [isLower_iff] at h
    omega
  · rename_i hascii
    have := related_memberFrom letterPoints_disjoint c.toNat
    simp_all [memberByPoints_eq]

theorem isWordChar_of_isAlphabetic {c : Char} (h : isAlphabetic c) : isWordChar c := by
  simp [isWordChar, h]

end Letter
end Terse
