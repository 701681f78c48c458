import Mathlib.Data.Nat.Digits.Defs
import Terse.Number.Decimal
import Terse.Proofs.Text.Letter

/-!
# What digits spell

A run of digits is read as the number that it spells in its base, and small numbers only.
-/

namespace Terse.Numeral

/-- The sixteen digits, in the order of their values. -/
def allDigits : List Char := "0123456789abcdef".toList

/-- The value of a digit in either case. What is no digit has the value sixteen. -/
def digitValue (c : Char) : Nat := allDigits.idxOf c.toLower

/-- The number that digits spell: the last one counts once, each other one `base` times what the
next one does. -/
def spelled (base : Nat) (cs : List Char) : Nat := Nat.ofDigits base (cs.reverse.map digitValue)

/-- There are digits, and they are digits of the base. -/
def IsNumeral (base : Nat) (cs : List Char) : Prop := cs ≠ [] ∧ ∀ c ∈ cs, digitValue c < base

instance (base : Nat) (cs : List Char) : Decidable (IsNumeral base cs) :=
  -- character by character of the list, not over all characters there are
  have := List.decidableBAll (fun c => digitValue c < base) cs
  inferInstanceAs (Decidable (_ ∧ _))

variable {base : Nat} {c : Char} {cs : List Char}

/-! ## Digits -/

theorem not_ascii (hc : ¬c.toNat < 128) :
    hexDigit? c = none ∧ digitValue c = 16 ∧ c.isDigit = false := by
  have hle : ∀ d : Char, d.toNat < 128 → ¬c ≤ d := fun d hd hcd => hc (Nat.lt_of_le_of_lt hcd hd)
  have hlower : c.toLower = c := dif_neg fun h => hle 'Z' (by decide) h.2
  have hall : allDigits.all (·.toNat < 128) = true := by decide
  have hmem : c ∉ allDigits := fun h => hc (by simpa using List.all_eq_true.mp hall c h)
  refine ⟨?_, ?_, ?_⟩
  · rw [hexDigit?, if_neg fun h => hle '9' (by decide) h.2,
      if_neg fun h => hle 'f' (by decide) h.2, if_neg fun h => hle 'F' (by decide) h.2]
  · rw [digitValue, hlower, List.idxOf_eq_length hmem]
    rfl
  · rw [Bool.eq_false_iff, ne_eq, Letter.isDigit_iff]
    omega

/-- What is read off 128 characters one by one holds of each of them. -/
theorem of_ascii {p : Char → Prop} (h : ∀ n < 128, p (Char.ofNat n)) (hc : c.toNat < 128) :
    p c := by
  have := h c.toNat hc
  rwa [Char.ofNat_toNat] at this

/-- A hexadecimal digit is a character whose value is below sixteen. -/
theorem hexDigit?_eq (c : Char) :
    hexDigit? c = if digitValue c < 16 then some (digitValue c) else none := by
  by_cases hc : c.toNat < 128
  · exact of_ascii (p := fun c =>
      hexDigit? c = if digitValue c < 16 then some (digitValue c) else none) (by decide +kernel) hc
  · rcases not_ascii hc with ⟨hdigit, hvalue, -⟩
    rw [hdigit, hvalue]
    rfl

/-- The digits of base ten have no case. -/
theorem digitValue_lt_ten_iff (c : Char) : digitValue c < 10 ↔ c.isDigit := by
  by_cases hc : c.toNat < 128
  · exact of_ascii (p := fun c => digitValue c < 10 ↔ c.isDigit) (by decide +kernel) hc
  · rcases not_ascii hc with ⟨-, hvalue, hdigit⟩
    simp [hvalue, hdigit]

/-- A digit of a base is a character whose value is below the base. -/
theorem digit?_eq (hbase : base ≤ 16) (c : Char) :
    digit? base c = if digitValue c < base then some (digitValue c) else none := by
  rw [digit?, hexDigit?_eq]
  by_cases hdigit : digitValue c < 16
  · rw [if_pos hdigit]
  · rw [if_neg hdigit, if_neg (by omega)]

/-! ## Runs of digits -/

theorem spelled_cons :
    spelled base (c :: cs) = spelled base cs + base ^ cs.length * digitValue c := by
  simp [spelled, Nat.ofDigits_append]

/-- Reading digits from the left adds up what each of them spells. -/
theorem valueFrom_eq (hbase : base ≤ 16) (acc : Nat) (cs : List Char) : valueFrom base acc cs =
    if cs.all (digitValue · < base) then some (acc * base ^ cs.length + spelled base cs)
    else none := by
  induction cs generalizing acc with
  | nil => simp [valueFrom, spelled]
  | cons c cs ih =>
    rw [valueFrom, digit?_eq hbase]
    by_cases hc : digitValue c < base
    · rw [if_pos hc]
      dsimp only
      rw [ih, spelled_cons, List.length_cons]
      have hsum : (acc * base + digitValue c) * base ^ cs.length + spelled base cs =
          acc * base ^ (cs.length + 1) + (spelled base cs + base ^ cs.length * digitValue c) := by
        ring
      rw [hsum]
      simp [hc]
    · rw [if_neg hc]
      simp [hc]

/-- A run of digits has the value that it spells. -/
theorem value?_eq (hbase : base ≤ 16) (cs : List Char) :
    value? base cs = if IsNumeral base cs then some (spelled base cs) else none := by
  cases cs with
  | nil => simp [value?, IsNumeral]
  | cons c cs =>
    rw [value?, valueFrom_eq hbase]
    · simp [IsNumeral]
    · simp

/-- Digits are read as the number that they spell, if it is small enough. -/
theorem bounded?_eq (hbase : base ≤ 16) (cs : List Char) : bounded? base cs =
    if IsNumeral base cs ∧ spelled base cs ≤ 2 ^ 63 - 1 then some (spelled base cs) else none := by
  rw [bounded?, value?_eq hbase]
  by_cases hcs : IsNumeral base cs
  · simp only [hcs, if_true, true_and, Option.filter_some, decide_eq_true_eq]
    rfl
  · simp [hcs]

end Terse.Numeral
