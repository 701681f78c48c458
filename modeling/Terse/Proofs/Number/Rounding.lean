import Mathlib.Tactic.Ring
import Mathlib.Tactic.SplitIfs
import Terse.Number.Double

/-!
# Integers as doubles

A double keeps 53 binary digits of an integer. What is left of the integer is the nearest multiple
of the unit in the last place, and the order of doubles is the order of what is left: two integers
are the same double exactly if they are rounded to the same multiple. Nothing is lost up to
`2 ^ 53`; behind it neighbours merge.
-/

namespace Terse.Double

/-! ## Rounding to a multiple -/

section Quotient

variable {m n d : Nat}

@[simp] theorem roundQuotient_one (n : Nat) : roundQuotient n 1 = n := by
  simp [roundQuotient, Nat.mod_one]

theorem le_roundQuotient : n / d ≤ roundQuotient n d := by
  unfold roundQuotient
  dsimp only
  split
  · exact Nat.le_refl _
  · split <;> omega

theorem roundQuotient_le : roundQuotient n d ≤ n / d + 1 := by
  unfold roundQuotient
  dsimp only
  split
  · omega
  · split
    · exact Nat.le_refl _
    · have := Nat.mod_lt (n / d) (show 0 < 2 by decide)
      omega

theorem roundQuotient_mono (h : m ≤ n) : roundQuotient m d ≤ roundQuotient n d := by
  rcases Nat.lt_or_eq_of_le (Nat.div_le_div_right (c := d) h) with hq | hq
  · calc roundQuotient m d ≤ m / d + 1 := roundQuotient_le
      _ ≤ n / d := hq
      _ ≤ roundQuotient n d := le_roundQuotient
  · -- the quotients are the same, so the remainders are in order
    have hr : m % d ≤ n % d := by
      have hm := Nat.div_add_mod m d
      have hn := Nat.div_add_mod n d
      rw [hq] at hm
      omega
    have heven := Nat.mod_lt (n / d) (show 0 < 2 by decide)
    unfold roundQuotient
    dsimp only
    rw [hq]
    split_ifs <;> omega

/-- No multiple is nearer than by half of the divisor. -/
theorem roundQuotient_near (hd : 0 < d) :
    2 * n ≤ 2 * (roundQuotient n d * d) + d ∧ 2 * (roundQuotient n d * d) ≤ 2 * n + d := by
  have hn := Nat.div_add_mod n d
  have hr := Nat.mod_lt n hd
  have hq : n / d * d = d * (n / d) := Nat.mul_comm _ _
  unfold roundQuotient
  dsimp only
  split
  · omega
  · split
    · rw [Nat.add_mul]
      omega
    · rcases Nat.mod_two_eq_zero_or_one (n / d) with heven | hodd
      · rw [heven, Nat.add_zero]
        omega
      · rw [hodd, Nat.add_mul]
        omega

end Quotient

/-- The unit in the last place of the doubles around an integer, or one where that is less. -/
def lastUnit (n : Nat) : Nat := 2 ^ (n.log2 - 52)

/-- What a double keeps of an integer: the nearest multiple of the last unit, a half to the even
one. -/
def rounded (n : Nat) : Nat := roundQuotient n (lastUnit n) * lastUnit n

/-- What a double keeps of an integer with a sign. -/
def roundedInt (n : Int) : Int := if n < 0 then -(rounded n.natAbs : Int) else rounded n.natAbs

/-- The 53 digits that a double has of an integer. -/
def significand (n : Nat) : Nat := roundQuotient (n * 2 ^ (52 - n.log2)) (lastUnit n)

section Nat

variable {m n : Nat}

theorem lastUnit_pos (n : Nat) : 0 < lastUnit n := Nat.two_pow_pos _

@[simp] theorem rounded_zero : rounded 0 = 0 := rfl

theorem two_pow_mul_lastUnit (n : Nat) :
    2 ^ 52 * lastUnit n = 2 ^ n.log2 * 2 ^ (52 - n.log2) := by
  rw [lastUnit, ← Nat.pow_add, ← Nat.pow_add]
  congr 1
  omega

/-- The digits before rounding have the first of 53 places filled. -/
theorem digits_bounds (hn : n ≠ 0) :
    2 ^ 52 * lastUnit n ≤ n * 2 ^ (52 - n.log2) ∧
      n * 2 ^ (52 - n.log2) < 2 ^ 53 * lastUnit n := by
  have hunit := two_pow_mul_lastUnit n
  constructor
  · rw [hunit]
    exact Nat.mul_le_mul_right _ (Nat.log2_self_le hn)
  · calc n * 2 ^ (52 - n.log2) < 2 ^ (n.log2 + 1) * 2 ^ (52 - n.log2) :=
          Nat.mul_lt_mul_of_pos_right Nat.lt_log2_self (Nat.two_pow_pos _)
      _ = 2 * (2 ^ n.log2 * 2 ^ (52 - n.log2)) := by ring
      _ = 2 ^ 53 * lastUnit n := by rw [← hunit]; ring

theorem significand_bounds (hn : n ≠ 0) : 2 ^ 52 ≤ significand n ∧ significand n ≤ 2 ^ 53 := by
  rcases digits_bounds hn with ⟨hle, hlt⟩
  have hdiv := (Nat.le_div_iff_mul_le (lastUnit_pos n)).mpr hle
  have hdiv' := (Nat.div_lt_iff_lt_mul (lastUnit_pos n)).mpr hlt
  have hround : significand n ≤ _ := roundQuotient_le
  exact ⟨hdiv.trans le_roundQuotient, hround.trans hdiv'⟩

/-- The digits in their places are what a double keeps. -/
theorem significand_mul (n : Nat) : significand n * 2 ^ n.log2 = rounded n * 2 ^ 52 := by
  rcases Nat.le_total n.log2 52 with h | h
  · have hunit : lastUnit n = 1 := by rw [lastUnit, Nat.sub_eq_zero_of_le h, Nat.pow_zero]
    rw [significand, rounded, hunit, roundQuotient_one, roundQuotient_one, Nat.mul_one,
      Nat.mul_assoc, ← Nat.pow_add, Nat.sub_add_cancel h]
  · rw [significand, rounded, Nat.sub_eq_zero_of_le h, Nat.pow_zero, Nat.mul_one, Nat.mul_assoc,
      lastUnit, ← Nat.pow_add, Nat.sub_add_cancel h]

/-- What is kept has as many digits as the integer, or is the next power of two. -/
theorem rounded_bounds (hn : n ≠ 0) :
    2 ^ n.log2 ≤ rounded n ∧ rounded n ≤ 2 ^ (n.log2 + 1) := by
  rcases significand_bounds hn with ⟨hle, hge⟩
  have hmul := significand_mul n
  constructor
  · refine Nat.le_of_mul_le_mul_right ?_ (Nat.two_pow_pos 52)
    rw [← hmul, Nat.mul_comm]
    exact Nat.mul_le_mul_right _ hle
  · refine Nat.le_of_mul_le_mul_right ?_ (Nat.two_pow_pos 52)
    calc rounded n * 2 ^ 52 = significand n * 2 ^ n.log2 := hmul.symm
      _ ≤ 2 ^ 53 * 2 ^ n.log2 := Nat.mul_le_mul_right _ hge
      _ = 2 ^ (n.log2 + 1) * 2 ^ 52 := by ring

theorem rounded_mono (h : m ≤ n) : rounded m ≤ rounded n := by
  rcases Nat.eq_zero_or_pos m with rfl | hm
  · exact Nat.zero_le _
  have hm : m ≠ 0 := Nat.ne_of_gt hm
  have hn : n ≠ 0 := by omega
  have hlog : m.log2 ≤ n.log2 := by
    rw [Nat.le_log2 hn]
    exact (Nat.log2_self_le hm).trans h
  rcases Nat.lt_or_eq_of_le hlog with hlt | heq
  · calc rounded m ≤ 2 ^ (m.log2 + 1) := (rounded_bounds hm).2
      _ ≤ 2 ^ n.log2 := Nat.pow_le_pow_right (by decide) hlt
      _ ≤ rounded n := (rounded_bounds hn).1
  · have hunit : lastUnit m = lastUnit n := by rw [lastUnit, lastUnit, heq]
    rw [rounded, rounded, hunit]
    exact Nat.mul_le_mul_right _ (roundQuotient_mono h)

/-- Nothing is lost up to `2 ^ 53`. -/
theorem rounded_eq_self (h : n ≤ 2 ^ 53) : rounded n = n := by
  rcases Nat.lt_or_eq_of_le h with hlt | rfl
  · have hlog : n.log2 ≤ 52 := by
      rcases Nat.eq_zero_or_pos n with rfl | hn
      · decide
      · exact Nat.le_of_lt_succ ((Nat.log2_lt (Nat.ne_of_gt hn)).mpr hlt)
    have hunit : lastUnit n = 1 := by rw [lastUnit, Nat.sub_eq_zero_of_le hlog, Nat.pow_zero]
    rw [rounded, hunit, roundQuotient_one, Nat.mul_one]
  · decide

/-! ## Magnitudes -/

/-- Numbers of 53 digits are in the order of their exponents, and then of their digits; a number
whose digits are all used up has the place of the next exponent. -/
theorem scaled_le_iff {p i j s t : Nat} (hp : 0 < p) (hs : p ≤ s) (hs' : s ≤ 2 * p) (ht : p ≤ t)
    (ht' : t ≤ 2 * p) : i * p + s ≤ j * p + t ↔ s * 2 ^ i ≤ t * 2 ^ j := by
  rcases Nat.lt_trichotomy i j with hij | rfl | hij
  · have hplace : (i + 1) * p ≤ j * p := Nat.mul_le_mul_right _ hij
    rw [Nat.add_mul] at hplace
    have hpow : s * 2 ^ i ≤ t * 2 ^ j :=
      calc s * 2 ^ i ≤ 2 * p * 2 ^ i := Nat.mul_le_mul_right _ hs'
        _ = p * 2 ^ (i + 1) := by ring
        _ ≤ t * 2 ^ j := Nat.mul_le_mul ht (Nat.pow_le_pow_right (by decide) hij)
    exact iff_of_true (by omega) hpow
  · rw [Nat.add_le_add_iff_left, Nat.mul_le_mul_right_iff (Nat.two_pow_pos i)]
  · -- only the next exponent with the least digits comes as late as the greatest digits
    obtain ⟨k, rfl⟩ := Nat.exists_eq_add_of_lt hij
    have hplaces : (j + k + 1) * p = j * p + k * p + p := by ring
    have hpowers : s * 2 ^ (j + k + 1) = s * 2 ^ k * 2 * 2 ^ j := by ring
    rw [hplaces, hpowers, Nat.mul_le_mul_right_iff (Nat.two_pow_pos j)]
    cases k with
    | zero => simp only [Nat.zero_mul, Nat.pow_zero]; omega
    | succ k =>
      have hfar : p ≤ (k + 1) * p := Nat.le_mul_of_pos_left p k.succ_pos
      have hfar' : s * 2 ≤ s * 2 ^ (k + 1) :=
        Nat.mul_le_mul_left s (Nat.le_self_pow k.succ_ne_zero 2)
      omega

/-- The unit of the digits of an integer. -/
theorem unitExponent_one (hn : n ≠ 0) : unitExponent n 1 = (n.log2 : Int) - 52 := by
  have hone : Nat.log2 1 = 0 := by decide
  rcases digits_bounds hn with ⟨hle, -⟩
  unfold lastUnit at hle
  unfold unitExponent scaled leastExponent
  -- below 2 ^ 52 the ratio is scaled up by its numerator, above it by its denominator
  rcases Nat.lt_or_ge n.log2 52 with h | h
  · have hneg : ¬ (0 : Int) ≤ (n.log2 : Int) - (Nat.log2 1 : Nat) - 52 := by rw [hone]; omega
    have hexp : (-((n.log2 : Int) - (Nat.log2 1 : Nat) - 52)).toNat = 52 - n.log2 := by
      rw [hone]; omega
    rw [Nat.sub_eq_zero_of_le (Nat.le_of_lt h), Nat.pow_zero] at hle
    simp only [if_neg hneg, hexp, Nat.pow_eq]
    rw [if_neg (Nat.not_lt.mpr hle), hone]
    omega
  · have hpos : (0 : Int) ≤ (n.log2 : Int) - (Nat.log2 1 : Nat) - 52 := by rw [hone]; omega
    have hexp : ((n.log2 : Int) - (Nat.log2 1 : Nat) - 52).toNat = n.log2 - 52 := by
      rw [hone]; omega
    rw [Nat.sub_eq_zero_of_le h, Nat.pow_zero, Nat.mul_one] at hle
    simp only [if_pos hpos, hexp, Nat.pow_eq, Nat.one_mul]
    rw [if_neg (Nat.not_lt.mpr hle), hone]
    omega

/-- The encoding of an integer: its exponent above its digits. -/
theorem magnitudeOfRatio_one (hn : n ≠ 0) (hfinite : n.log2 ≤ 1022) :
    magnitudeOfRatio n 1 = (n.log2 + 1022) * 2 ^ 52 + significand n := by
  have hplace : ((n.log2 : Int) - 52 - leastExponent).toNat = n.log2 + 1022 := by
    unfold leastExponent
    omega
  have hdigits : roundQuotient (scaled n 1 ((n.log2 : Int) - 52)).1
      (scaled n 1 ((n.log2 : Int) - 52)).2 = significand n := by
    unfold scaled significand lastUnit
    rcases Nat.lt_or_ge n.log2 52 with h | h
    · have hexp : (-((n.log2 : Int) - 52)).toNat = 52 - n.log2 := by omega
      rw [if_neg (by omega), hexp, Nat.sub_eq_zero_of_le (Nat.le_of_lt h), Nat.pow_zero]
      rfl
    · have hexp : ((n.log2 : Int) - 52).toNat = n.log2 - 52 := by omega
      rw [if_pos (by omega), hexp, Nat.sub_eq_zero_of_le h, Nat.pow_zero, Nat.mul_one, Nat.one_mul]
      rfl
  have hbound : (n.log2 + 1022) * 2 ^ 52 + significand n ≤ infiniteMagnitude :=
    calc (n.log2 + 1022) * 2 ^ 52 + significand n
        ≤ 2044 * 2 ^ 52 + 2 ^ 53 :=
          Nat.add_le_add (Nat.mul_le_mul_right _ (by omega)) (significand_bounds hn).2
      _ ≤ 2047 * 2 ^ 52 := by decide
  unfold magnitudeOfRatio
  simp only [if_neg hn, unitExponent_one hn, hplace, hdigits, Nat.pow_eq]
  exact Nat.min_eq_right hbound

/-- The order of encodings is the order of what is kept. -/
theorem magnitude_le_iff (hm : m.log2 ≤ 1022) (hn : n.log2 ≤ 1022) :
    magnitudeOfRatio m 1 ≤ magnitudeOfRatio n 1 ↔ rounded m ≤ rounded n := by
  rcases Nat.eq_zero_or_pos m with rfl | hmpos
  · exact iff_of_true (Nat.zero_le _) (Nat.zero_le _)
  have hm0 : m ≠ 0 := Nat.ne_of_gt hmpos
  rcases significand_bounds hm0 with ⟨hs, hs'⟩
  rw [magnitudeOfRatio_one hm0 hm]
  rcases Nat.eq_zero_or_pos n with rfl | hnpos
  · have hkept := (rounded_bounds hm0).1
    have hpow := Nat.two_pow_pos m.log2
    have hzero : magnitudeOfRatio 0 1 = 0 := rfl
    rw [hzero, rounded_zero]
    omega
  have hn0 : n ≠ 0 := Nat.ne_of_gt hnpos
  rcases significand_bounds hn0 with ⟨ht, ht'⟩
  rw [magnitudeOfRatio_one hn0 hn, Nat.add_mul, Nat.add_mul]
  -- magnitudes compare first by exponent and then by significand, as the rounded numbers do
  calc m.log2 * 2 ^ 52 + 1022 * 2 ^ 52 + significand m
        ≤ n.log2 * 2 ^ 52 + 1022 * 2 ^ 52 + significand n
      ↔ m.log2 * 2 ^ 52 + significand m ≤ n.log2 * 2 ^ 52 + significand n := by omega
    _ ↔ significand m * 2 ^ m.log2 ≤ significand n * 2 ^ n.log2 :=
        scaled_le_iff (Nat.two_pow_pos 52) hs (by omega) ht (by omega)
    _ ↔ rounded m ≤ rounded n := by
        rw [significand_mul, significand_mul, Nat.mul_le_mul_right_iff (Nat.two_pow_pos 52)]

end Nat

/-! ## Signs -/

section Int

variable {a b : Int}

@[simp] theorem rank_negate (x : Double) : x.negate.rank = -x.rank := by
  rcases x with ⟨negative, magnitude⟩
  cases negative <;> simp [negate, rank]

/-- Up to `2 ^ 1023` the order of doubles is the order of what is kept. -/
theorem rank_ofInt_le_iff (ha : a.natAbs.log2 ≤ 1022) (hb : b.natAbs.log2 ≤ 1022) :
    (ofInt a).rank ≤ (ofInt b).rank ↔ roundedInt a ≤ roundedInt b := by
  have hle := magnitude_le_iff ha hb
  have hge := magnitude_le_iff hb ha
  -- below zero something is kept, so that the sign is
  have hkept : ∀ {n : Int}, n < 0 → n.natAbs.log2 ≤ 1022 →
      0 < magnitudeOfRatio n.natAbs 1 ∧ 0 < rounded n.natAbs := by
    intro n hn hlog
    have hn0 : n.natAbs ≠ 0 := by omega
    have hsig := (significand_bounds hn0).1
    rw [magnitudeOfRatio_one hn0 hlog]
    have hpow := (rounded_bounds hn0).1
    have := Nat.two_pow_pos n.natAbs.log2
    omega
  unfold ofInt rank roundedInt
  rcases lt_or_ge a 0 with hsa | hsa <;> rcases lt_or_ge b 0 with hsb | hsb
  · simp only [hsa, hsb, decide_true, if_true]
    omega
  · simp only [hsa, Int.not_lt.mpr hsb, decide_true, decide_false, if_true, if_false,
      Bool.false_eq_true]
    omega
  · have hneg := hkept hsb hb
    simp only [hsb, Int.not_lt.mpr hsa, decide_true, decide_false, if_true, if_false,
      Bool.false_eq_true]
    omega
  · simp only [Int.not_lt.mpr hsa, Int.not_lt.mpr hsb, decide_false, if_false,
      Bool.false_eq_true]
    omega

theorem roundedInt_mono (h : a ≤ b) : roundedInt a ≤ roundedInt b := by
  unfold roundedInt
  rcases lt_or_ge a 0 with hsa | hsa <;> rcases lt_or_ge b 0 with hsb | hsb
  · rw [if_pos hsa, if_pos hsb]
    have := rounded_mono (m := b.natAbs) (n := a.natAbs) (by omega)
    omega
  · rw [if_pos hsa, if_neg (Int.not_lt.mpr hsb)]
    omega
  · omega
  · rw [if_neg (Int.not_lt.mpr hsa), if_neg (Int.not_lt.mpr hsb)]
    have := rounded_mono (m := a.natAbs) (n := b.natAbs) (by omega)
    omega

/-- Nothing is lost up to `2 ^ 53`. -/
theorem roundedInt_eq_self (h : a.natAbs ≤ 2 ^ 53) : roundedInt a = a := by
  unfold roundedInt
  rw [rounded_eq_self h]
  split <;> omega

/-- What is kept differs from the integer by half of the last unit at most. -/
theorem roundedInt_near (a : Int) : 2 * (roundedInt a - a).natAbs ≤ lastUnit a.natAbs := by
  have hnear := roundQuotient_near (n := a.natAbs) (lastUnit_pos a.natAbs)
  unfold roundedInt rounded
  split <;> omega

end Int

end Terse.Double
