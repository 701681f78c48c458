import Terse.Proofs.Number.Digits
import Terse.Proofs.Token.Boundary
import Terse.Proofs.Token.Reference

/-!
# Integers as tokens

Digits that are not part of a longer word or numeral are read as one token. It is the number that
they spell, and where that is too great nothing is read at all.
-/

namespace Terse

open Token (Kind)

/-- A text that does not go on with digits, a fraction or an exponent. -/
structure EndsDigits (behind : List Char) : Prop where
  digit : ∀ c, behind.head? = some c → ¬c.isDigit
  fraction : ∀ c, behind.head? = some '.' → behind[1]? = some c → ¬c.isDigit
  exponent : ∀ c, behind.head? = some c → c ≠ 'e' ∧ c ≠ 'E'

/-- The digits are the whole of a decimal integer: what is behind does not go on with them, nor does
it make a zero the mark of a hexadecimal number. -/
structure EndsInteger (digits behind : List Char) : Prop extends EndsDigits behind where
  mark : digits = ['0'] → ∀ c, behind.head? = some c → c ≠ 'x' ∧ c ≠ 'X'

/-- The token is a number. -/
def Token.Kind.isNumber : Kind → Bool
  | .int _ | .hex _ | .float _ => true
  | _ => false

namespace Lexeme

variable {attached : Option Kind} {c : Char} {cs digits behind rest : List Char} {n m : Nat}

/-! ## Digits alone -/

theorem endsDigits_cons_iff : EndsDigits (c :: cs) ↔
    ¬c.isDigit ∧ ¬startsFraction false c cs ∧ ¬Numeral.isExponentMark c := by
  have hfraction : startsFraction false c cs ↔ c = '.' ∧ ∃ d, cs.head? = some d ∧ d.isDigit := by
    cases cs <;> simp [startsFraction]
  have hmark : Numeral.isExponentMark c ↔ c = 'e' ∨ c = 'E' := by simp [Numeral.isExponentMark]
  rw [hfraction, hmark, not_or]
  constructor
  · intro h
    refine ⟨h.digit c rfl, ?_, h.exponent c rfl⟩
    rintro ⟨rfl, d, hd, hdigit⟩
    exact h.fraction d rfl (by rwa [List.getElem?_cons_succ, ← List.head?_eq_getElem?]) hdigit
  · rintro ⟨hdigit, hpoint, hexponent⟩
    refine ⟨?_, ?_, ?_⟩
    · rintro _ ⟨⟩
      exact hdigit
    · rintro d ⟨⟩ hd hdigit
      rw [List.getElem?_cons_succ, ← List.head?_eq_getElem?] at hd
      exact hpoint ⟨rfl, d, hd, hdigit⟩
    · rintro _ ⟨⟩
      exact hexponent

/-- A numeral that has come to its fraction or its exponent stays one with it. -/
theorem numeral_isFloat (cs : List Char) : (numeral true cs).2 = true := by
  generalize hfloat : true = isFloat
  fun_induction numeral isFloat cs <;> simp_all

/-- What goes on with a fraction or an exponent is no integer. -/
theorem isFloat_of_not_endsDigits (hdigit : ¬c.isDigit) (h : ¬EndsDigits (c :: cs)) :
    (numeral false (c :: cs)).2 = true := by
  by_cases hpoint : startsFraction false c cs
  · rw [numeral_fraction hdigit hpoint]
    exact numeral_isFloat cs
  · have hmark : Numeral.isExponentMark c := by
      rw [endsDigits_cons_iff] at h
      by_contra hmark
      exact h ⟨hdigit, hpoint, hmark⟩
    rw [numeral_cons, if_neg hdigit, if_neg hpoint, if_pos hmark]
    split <;> exact numeral_isFloat _

theorem numeral_digits (hdigits : ∀ c ∈ digits, c.isDigit) (hbehind : EndsDigits behind) :
    numeral false (digits ++ behind) = (digits, false) := by
  induction digits with
  | nil =>
    cases behind with
    | nil => rfl
    | cons c cs =>
      rcases endsDigits_cons_iff.mp hbehind with ⟨hdigit, hpoint, hmark⟩
      exact numeral_end hdigit hpoint hmark
  | cons c digits ih =>
    rw [List.forall_mem_cons] at hdigits
    rw [List.cons_append, numeral_digit hdigits.1, ih hdigits.2]
    rfl

/-- A numeral without fraction and exponent is made of digits, and the text does not go on with
it. -/
theorem exists_of_numeral (h : numeral false cs = (digits, false)) :
    ∃ behind, cs = digits ++ behind ∧ (∀ c ∈ digits, c.isDigit) ∧ EndsDigits behind := by
  induction cs generalizing digits with
  | nil =>
    cases h
    exact ⟨[], rfl, by simp, by simp, by simp, by simp⟩
  | cons c cs ih =>
    by_cases hdigit : c.isDigit
    · rw [numeral_digit hdigit] at h
      cases hlater : numeral false cs with
      | mk later isFloat =>
        rw [hlater] at h
        cases h
        rcases ih hlater with ⟨behind, rfl, hlaterDigits, hbehind⟩
        exact ⟨behind, rfl, List.forall_mem_cons.mpr ⟨hdigit, hlaterDigits⟩, hbehind⟩
    · -- a numeral that goes on behind its digits would be a float
      have hends : EndsDigits (c :: cs) := by
        by_contra hends
        have hfloat := isFloat_of_not_endsDigits hdigit hends
        rw [h] at hfloat
        cases hfloat
      rcases endsDigits_cons_iff.mp hends with ⟨-, hpoint, hmark⟩
      rw [numeral_end hdigit hpoint hmark] at h
      cases h
      exact ⟨c :: cs, rfl, by simp, hends⟩

/-! ## What is read at the front of a text -/

theorem decimalNumber_digits (h : numeral false cs = (digits, false)) : decimalNumber cs =
    if Numeral.IsNumeral 10 digits ∧ Numeral.spelled 10 digits ≤ 2 ^ 63 - 1 then
      .ok (.int (Numeral.spelled 10 digits), digits.length)
    else .error (.invalidNumber (String.ofList digits)) := by
  rw [decimalNumber, h]
  dsimp only
  rw [if_neg Bool.false_ne_true, Numeral.bounded?_eq (by decide)]
  by_cases hdigits : Numeral.IsNumeral 10 digits ∧ Numeral.spelled 10 digits ≤ 2 ^ 63 - 1
  · rw [if_pos hdigits, if_pos hdigits]
    rfl
  · rw [if_neg hdigits, if_neg hdigits]
    rfl

theorem exists_of_decimalNumber_float {kind : Kind} (h : numeral false cs = (digits, true))
    (hread : decimalNumber cs = .ok (kind, n)) : ∃ x, kind = .float x := by
  rw [decimalNumber, h] at hread
  dsimp only at hread
  rw [if_pos rfl] at hread
  split at hread
  · rename_i k hk
    rcases Option.map_eq_some_iff.mp hk with ⟨x, -, rfl⟩
    cases hread
    exact ⟨x, rfl⟩
  · cases hread

theorem hexNumber_eq (rest : List Char) : hexNumber rest =
    if Numeral.IsNumeral 16 (word rest) ∧ Numeral.spelled 16 (word rest) ≤ 2 ^ 63 - 1 then
      .ok (.hex (Numeral.spelled 16 (word rest)), (word rest).length + 2)
    else .error (.invalidNumber ("0x" ++ String.ofList (word rest))) := by
  rw [hexNumber, Numeral.bounded?_eq (by decide)]
  by_cases hdigits : Numeral.IsNumeral 16 (word rest) ∧ Numeral.spelled 16 (word rest) ≤ 2 ^ 63 - 1
  · rw [if_pos hdigits, if_pos hdigits]
  · rw [if_neg hdigits, if_neg hdigits]

theorem endsWord_dropWhile (cs : List Char) : EndsWord (cs.dropWhile Letter.isWordChar) := by
  intro c hc
  have := List.head?_dropWhile_not Letter.isWordChar cs
  rw [hc] at this
  simpa using this

/-- The mark of a hexadecimal number, or a decimal number. -/
theorem number_cases (cs : List Char) :
    (∃ x rest, (x = 'x' ∨ x = 'X') ∧ cs = '0' :: x :: rest ∧ number cs = hexNumber rest) ∨
      ((∀ x rest, x = 'x' ∨ x = 'X' → cs ≠ '0' :: x :: rest) ∧ number cs = decimalNumber cs) := by
  unfold number
  split
  · exact .inl ⟨'x', _, .inl rfl, rfl, rfl⟩
  · exact .inl ⟨'X', _, .inr rfl, rfl, rfl⟩
  · rename_i hlower hupper
    refine .inr ⟨?_, rfl⟩
    rintro x rest (rfl | rfl) hcs
    · exact hlower rest hcs
    · exact hupper rest hcs

/-- Digits with nothing behind them that goes on with them are a decimal number. -/
theorem number_digits (hdigits : ∀ c ∈ digits, c.isDigit) (hbehind : EndsInteger digits behind) :
    number (digits ++ behind) = decimalNumber (digits ++ behind) := by
  rcases number_cases (digits ++ behind) with ⟨x, rest, hx, hcs, -⟩ | ⟨-, hnumber⟩
  · exfalso
    have hmark : ¬x.isDigit := by rcases hx with rfl | rfl <;> decide
    -- the mark is the second character, so it is a digit or the first character behind a zero
    cases digits with
    | nil =>
      rw [List.nil_append] at hcs
      exact hbehind.digit '0' (by rw [hcs]; rfl) (by decide)
    | cons c digits =>
      rw [List.cons_append, List.cons.injEq] at hcs
      rcases hcs with ⟨rfl, hcs⟩
      cases digits with
      | nil =>
        have := hbehind.mark rfl x (by rw [show behind = x :: rest from hcs]; rfl)
        exact hx.elim this.1 this.2
      | cons d digits =>
        rw [List.cons_append, List.cons.injEq] at hcs
        rcases hcs with ⟨rfl, -⟩
        exact hmark (hdigits d (by simp))
  · exact hnumber

theorem number_int (hdigits : ∀ c ∈ digits, c.isDigit) (hbehind : EndsInteger digits behind) :
    number (digits ++ behind) =
      if Numeral.IsNumeral 10 digits ∧ Numeral.spelled 10 digits ≤ 2 ^ 63 - 1 then
        .ok (.int (Numeral.spelled 10 digits), digits.length)
      else .error (.invalidNumber (String.ofList digits)) := by
  rw [number_digits hdigits hbehind]
  exact decimalNumber_digits (numeral_digits hdigits hbehind.toEndsDigits)

theorem number_hex {x : Char} (hx : x = 'x' ∨ x = 'X')
    (hdigits : ∀ c ∈ digits, Letter.isWordChar c) (hbehind : EndsWord behind) :
    number ('0' :: x :: (digits ++ behind)) =
      if Numeral.IsNumeral 16 digits ∧ Numeral.spelled 16 digits ≤ 2 ^ 63 - 1 then
        .ok (.hex (Numeral.spelled 16 digits), digits.length + 2)
      else .error (.invalidNumber ("0x" ++ String.ofList digits)) := by
  have hnumber : number ('0' :: x :: (digits ++ behind)) = hexNumber (digits ++ behind) := by
    rcases hx with rfl | rfl <;> rfl
  rw [hnumber, hexNumber_eq, word_append hdigits hbehind]

theorem exists_of_number_int {k : Nat} (h : number cs = .ok (.int k, n)) :
    ∃ digits behind, cs = digits ++ behind ∧ n = digits.length ∧
      Numeral.IsNumeral 10 digits ∧ EndsInteger digits behind ∧ k = Numeral.spelled 10 digits ∧
      k ≤ 2 ^ 63 - 1 := by
  rcases number_cases cs with ⟨x, rest, -, -, hnumber⟩ | ⟨hmark, hnumber⟩
  · rw [hnumber, hexNumber_eq] at h
    split at h <;> cases h
  · rw [hnumber] at h
    cases hnumeral : numeral false cs with
    | mk digits isFloat =>
      cases isFloat with
      | true =>
        -- a float is never read as an integer
        rcases exists_of_decimalNumber_float hnumeral h with ⟨x, hx⟩
        cases hx
      | false =>
        rw [decimalNumber_digits hnumeral] at h
        split at h
        · rename_i hdigits
          cases h
          rcases exists_of_numeral hnumeral with ⟨behind, rfl, -, hbehind⟩
          refine ⟨digits, behind, rfl, rfl, hdigits.1, ⟨hbehind, ?_⟩, rfl, hdigits.2⟩
          rintro rfl c hhead
          rcases List.head?_eq_some_iff.mp hhead with ⟨rest, rfl⟩
          exact ⟨fun hc => hmark c rest (.inl hc) rfl, fun hc => hmark c rest (.inr hc) rfl⟩
        · cases h

theorem exists_of_number_hex {k : Nat} (h : number cs = .ok (.hex k, n)) :
    ∃ x digits behind, (x = 'x' ∨ x = 'X') ∧ cs = '0' :: x :: (digits ++ behind) ∧
      n = digits.length + 2 ∧ Numeral.IsNumeral 16 digits ∧ EndsWord behind ∧
      k = Numeral.spelled 16 digits ∧ k ≤ 2 ^ 63 - 1 := by
  rcases number_cases cs with ⟨x, rest, hx, rfl, hnumber⟩ | ⟨-, hnumber⟩
  · rw [hnumber, hexNumber_eq] at h
    split at h
    · rename_i hdigits
      cases h
      refine ⟨x, word rest, rest.dropWhile Letter.isWordChar, hx, ?_, rfl, hdigits.1,
        endsWord_dropWhile rest, rfl, hdigits.2⟩
      rw [word, List.takeWhile_append_dropWhile]
    · cases h
  · rw [hnumber] at h
    cases hnumeral : numeral false cs with
    | mk digits isFloat =>
      cases isFloat with
      | true =>
        rcases exists_of_decimalNumber_float hnumeral h with ⟨x, hx⟩
        cases hx
      | false =>
        rw [decimalNumber_digits hnumeral] at h
        split at h <;> cases h

/-! ## Numbers among the lexemes -/

theorem identifier_not_number (cs : List Char) : (identifier cs).1.isNumber = false := by
  unfold identifier
  dsimp only
  split
  · rfl
  split
  · generalize (laterSegments 0 _).2.1 = last
    cases last <;> rfl
  · split <;> rfl

theorem operator_not_number (attached : Option Kind) (cs : List Char) :
    (operator attached cs).1.isNumber = false := by
  unfold operator
  dsimp only
  split <;> first | rfl | (generalize (_ && _) = negates; cases negates <;> rfl)

/-- A number starts with a digit, and is read as a number. -/
theorem exists_of_next_number {kind : Kind} (h : next attached c rest = .ok (.token kind, n))
    (hkind : kind.isNumber = true) : ∃ m, number (c :: rest) = .ok (kind, m) ∧ n = m - 1 := by
  -- the other fronts give kinds that are no numbers
  cases front_of_next h with
  | mark hc =>
    have hmarks : ∀ p ∈ marks, p.2.isNumber = false := by decide
    simp [hmarks _ hc] at hkind
  | string _ hread =>
    unfold string at hread
    dsimp only at hread
    split at hread <;> cases hread
    cases hkind
  | character _ hread =>
    unfold character at hread
    dsimp only at hread
    split at hread
    · split at hread <;> cases hread
      cases hkind
    · cases hread
  | point _ hread =>
    unfold point at hread
    split at hread
    · cases hread
      cases hkind
    · split at hread
      · cases hread
        split at hkind <;> cases hkind
      · cases hread
    · cases hread
  | number _ hread => exact ⟨_, hread, rfl⟩
  | word => simp [identifier_not_number] at hkind
  | operator => simp [operator_not_number] at hkind

theorem next_digit (hc : c.isDigit) : next attached c rest =
    (number (c :: rest)).map fun x => (.token x.1, x.2 - 1) := by
  rw [next_of_not_special (not_mem_special_of_isDigit hc), if_pos hc]

end Lexeme

/-! ## Numbers at their places -/

/-- The characters `written` are a token of this kind: cutting goes on behind them, and where the
text can be cut to its end they are one of its tokens. -/
structure TokenAt (text before written behind : List Char) (kind : Kind) : Prop where
  cut : CutAt text (before ++ written) (some kind) behind
  mem : ∀ ts, Token.scan text = .ok ts → ∃ t ∈ ts, t.kind = kind ∧
    t.range = ⟨Location.origin.afterAll before, Location.origin.afterAll (before ++ written)⟩

namespace CutAt

variable {text before written digits behind : List Char} {attached : Option Kind} {kind : Kind}

/-- A number that is read at a place is a token there. -/
theorem tokenAt_of_number (h : CutAt text before attached (written ++ behind))
    (hdigit : ∀ c, written.head? = some c → c.isDigit) (hwritten : written ≠ [])
    (hnumber : Lexeme.number (written ++ behind) = .ok (kind, written.length)) :
    TokenAt text before written behind kind := by
  rcases List.exists_cons_of_ne_nil hwritten with ⟨c, cs, rfl⟩
  rw [List.cons_append] at h hnumber
  have hnext : Lexeme.next attached c (cs ++ behind) = .ok (.token kind, cs.length) := by
    rw [Lexeme.next_digit (hdigit c rfl), hnumber]
    rfl
  refine ⟨?_, fun ts hscan => ?_⟩
  · have hcut := h.next hnext
    rwa [List.take_left, List.drop_left] at hcut
  · have htoken := h.exists_token hnext hscan
    rwa [List.take_left] at htoken

/-- Where a number cannot be read, scanning ends. -/
theorem scan_eq_error_of_number {fault : Lexeme.Fault}
    (h : CutAt text before attached (written ++ behind))
    (hdigit : ∀ c, written.head? = some c → c.isDigit) (hwritten : written ≠ [])
    (hnumber : Lexeme.number (written ++ behind) = .error fault) :
    Token.scan text = .error (Location.origin.afterAll before, fault) := by
  rcases List.exists_cons_of_ne_nil hwritten with ⟨c, cs, rfl⟩
  rw [List.cons_append] at h hnumber
  refine h.scan_eq_error ?_
  rw [Lexeme.next_digit (hdigit c rfl), hnumber]
  rfl

/-- A decimal integer is a token if it is small enough, and scanning ends there if it is not. -/
theorem int (h : CutAt text before attached (digits ++ behind))
    (hdigits : Numeral.IsNumeral 10 digits) (hbehind : EndsInteger digits behind) :
    if Numeral.spelled 10 digits ≤ 2 ^ 63 - 1 then
      TokenAt text before digits behind (.int (Numeral.spelled 10 digits))
    else Token.scan text = .error
      (Location.origin.afterAll before, .invalidNumber (String.ofList digits)) := by
  have hall : ∀ c ∈ digits, c.isDigit :=
    fun c hc => (Numeral.digitValue_lt_ten_iff c).mp (hdigits.2 c hc)
  have hhead : ∀ c, digits.head? = some c → c.isDigit :=
    fun c hc => hall c (List.mem_of_mem_head? hc)
  have hnumber := Lexeme.number_int hall hbehind
  split
  · rename_i hle
    rw [if_pos ⟨hdigits, hle⟩] at hnumber
    exact h.tokenAt_of_number hhead hdigits.1 hnumber
  · rename_i hle
    rw [if_neg fun hsmall => hle hsmall.2] at hnumber
    exact h.scan_eq_error_of_number hhead hdigits.1 hnumber

/-- A hexadecimal integer is a token if it is one and is small enough, and scanning ends there if
not. -/
theorem hex {x : Char} (hx : x = 'x' ∨ x = 'X')
    (h : CutAt text before attached ('0' :: x :: (digits ++ behind)))
    (hdigits : ∀ c ∈ digits, Letter.isWordChar c) (hbehind : Lexeme.EndsWord behind) :
    if Numeral.IsNumeral 16 digits ∧ Numeral.spelled 16 digits ≤ 2 ^ 63 - 1 then
      TokenAt text before ('0' :: x :: digits) behind (.hex (Numeral.spelled 16 digits))
    else Token.scan text = .error
      (Location.origin.afterAll before, .invalidNumber ("0x" ++ String.ofList digits)) := by
  have hhead : ∀ c, ('0' :: x :: digits).head? = some c → c.isDigit := by
    rintro _ ⟨⟩
    decide
  have hnumber := Lexeme.number_hex hx hdigits hbehind
  split
  · rename_i hsmall
    rw [if_pos hsmall] at hnumber
    exact h.tokenAt_of_number hhead (List.cons_ne_nil _ _) hnumber
  · rename_i hsmall
    rw [if_neg hsmall] at hnumber
    exact h.scan_eq_error_of_number hhead (List.cons_ne_nil _ _) hnumber

end CutAt

/-- The characters spell the integer that the token is, and `behind` does not go on with them. -/
inductive SpellsInteger : Kind → List Char → List Char → Prop where
  | int {digits behind : List Char} (hdigits : Numeral.IsNumeral 10 digits)
      (hbehind : EndsInteger digits behind) :
      SpellsInteger (.int (Numeral.spelled 10 digits)) digits behind
  | hex {x : Char} {digits behind : List Char} (hx : x = 'x' ∨ x = 'X')
      (hdigits : Numeral.IsNumeral 16 digits) (hbehind : Lexeme.EndsWord behind) :
      SpellsInteger (.hex (Numeral.spelled 16 digits)) ('0' :: x :: digits) behind

/-- What is read as an integer is the number that the characters spell, and it is small. -/
theorem Lexeme.exists_of_number {cs : List Char} {kind : Kind} {n m : Nat}
    (h : number cs = .ok (kind, m)) (hkind : kind = .int n ∨ kind = .hex n) :
    ∃ written behind, cs = written ++ behind ∧ m = written.length ∧ written ≠ [] ∧
      SpellsInteger kind written behind ∧ n ≤ 2 ^ 63 - 1 := by
  rcases hkind with rfl | rfl
  · rcases exists_of_number_int h with ⟨digits, behind, hcs, hm, hdigits, hbehind, rfl, hle⟩
    exact ⟨digits, behind, hcs, hm, hdigits.1, .int hdigits hbehind, hle⟩
  · rcases exists_of_number_hex h with ⟨x, digits, behind, hx, hcs, hm, hdigits, hbehind, rfl, hle⟩
    exact ⟨'0' :: x :: digits, behind, hcs, hm, List.cons_ne_nil _ _, .hex hx hdigits hbehind, hle⟩

/-- Every integer among the tokens is the number that is spelled where the token stands, and it is
small. -/
theorem Token.exists_spellsInteger {text : List Char} {ts : List Token} {t : Token} {n : Nat}
    (hscan : Token.scan text = .ok ts) (ht : t ∈ ts) (hkind : t.kind = .int n ∨ t.kind = .hex n) :
    n ≤ 2 ^ 63 - 1 ∧ ∃ before attached written behind,
      CutAt text before attached (written ++ behind) ∧ SpellsInteger t.kind written behind ∧
      t.range =
        ⟨Location.origin.afterAll before, Location.origin.afterAll (before ++ written)⟩ := by
  rcases exists_cutAt hscan ht with ⟨before, attached, c, rest, k, hcut, hnext, hrange⟩
  have hnumber : t.kind.isNumber = true := by rcases hkind with hkind | hkind <;> rw [hkind] <;> rfl
  rcases Lexeme.exists_of_next_number hnext hnumber with ⟨m, hnumber, rfl⟩
  rcases Lexeme.exists_of_number hnumber hkind with
    ⟨written, behind, hcs, rfl, hne, hwritten, hle⟩
  refine ⟨hle, before, attached, written, behind, hcs ▸ hcut, hwritten, ?_⟩
  -- the token takes up what is written
  have htake : c :: rest.take (written.length - 1) = written := by
    obtain ⟨d, ds, rfl⟩ := List.exists_cons_of_ne_nil hne
    rw [List.cons_append, List.cons.injEq] at hcs
    rw [hcs.1, hcs.2, List.length_cons, Nat.add_sub_cancel, List.take_left]
  rw [hrange, htake]

end Terse
