import Terse.Proofs.Outcome
import Terse.Proofs.Text.Letter
import Terse.Token.Lexeme

/-!
# The front of a text

Which lexeme stands at the front of a text is told by its first character, and by the second one
where a comment may start.
-/

namespace Terse.Lexeme

open Token (Kind)

/-- The marks of one character. -/
def marks : List (Char × Kind) :=
  [('(', .leftParen), (')', .rightParen), ('[', .leftBracket), (']', .rightBracket),
   ('{', .leftBrace), ('}', .rightBrace), (',', .comma), ('\\', .backslash)]

/-- A lexeme of this class, with so many characters behind `c`, stands at the front of a text. -/
inductive Front (attached : Option Kind) (c : Char) (rest : List Char) : Class → Nat → Prop where
  | blank (hc : isSpace c) : Front attached c rest .blank 0
  | lineComment (hc : c = '-') (hrest : rest.head? = some '-') :
      Front attached c rest .lineComment (rest.takeWhile (· ≠ '\n')).length
  | blockComment {n : Nat} (hc : c = '{') (hrest : rest.head? = some '-')
      (h : closeComment 0 (c :: rest) = some n) : Front attached c rest .blockComment (n - 1)
  | mark {k : Kind} (hc : (c, k) ∈ marks) (hrest : c = '{' → rest.head? ≠ some '-') :
      Front attached c rest (.token k) 0
  | string {k : Kind} {n : Nat} (hc : c = '"') (h : string rest = .ok (k, n)) :
      Front attached c rest (.token k) (n - 1)
  | character {k : Kind} {n : Nat} (hc : c = '\'') (h : character rest = .ok (k, n)) :
      Front attached c rest (.token k) (n - 1)
  | point {k : Kind} {n : Nat} (hc : c = '.') (h : point attached rest = .ok (k, n)) :
      Front attached c rest (.token k) (n - 1)
  | number {k : Kind} {n : Nat} (hc : c.isDigit) (h : number (c :: rest) = .ok (k, n)) :
      Front attached c rest (.token k) (n - 1)
  | word (hc : Letter.isAlphabetic c || c == '_') :
      Front attached c rest (.token (identifier (c :: rest)).1) ((identifier (c :: rest)).2 - 1)
  | operator (hc : isOperatorChar c) (hpoint : c ≠ '.') (hrest : c = '-' → rest.head? ≠ some '-') :
      Front attached c rest (.token (operator attached (c :: rest)).1)
        ((operator attached (c :: rest)).2 - 1)

variable {attached : Option Kind} {c : Char} {rest : List Char} {cls : Class} {n : Nat}

/-! ## From the front to what is read -/

/-- The characters that are told apart one by one. -/
def special : List Char :=
  [' ', '\t', '\r', '\n', '(', ')', '[', ']', '{', '}', ',', '\\', '"', '\'', '.', '-']

/-- A character that is not special starts a number, a word or an operator. -/
theorem next_of_not_special (hc : c ∉ special) : next attached c rest =
    if c.isDigit then (number (c :: rest)).map fun x => (.token x.1, x.2 - 1)
    else if Letter.isAlphabetic c || c == '_' then
      .ok (.token (identifier (c :: rest)).1, (identifier (c :: rest)).2 - 1)
    else if isOperatorChar c then
      .ok (.token (operator attached (c :: rest)).1, (operator attached (c :: rest)).2 - 1)
    else .error (.invalidCharacter c) := by
  simp only [special, List.mem_cons, List.not_mem_nil, not_or, or_false] at hc
  obtain ⟨h1, h2, h3, h4, h5, h6, h7, h8, h9, h10, h11, h12, h13, h14, h15, h16⟩ := hc
  simp only [next, isSpace, beq_iff_eq, Bool.or_eq_true, *, if_false, false_and, or_false]
  rfl

theorem not_mem_special_of_isDigit (hc : c.isDigit) : c ∉ special := by
  intro hmem
  have hspecial : special.all (!·.isDigit) = true := by decide
  have hdigit := List.all_eq_true.mp hspecial c hmem
  simp [hc] at hdigit

/-- No character that starts a word is special. -/
theorem not_mem_special_of_word (hc : Letter.isAlphabetic c || c == '_') : c ∉ special := by
  intro hmem
  have hspecial : special.all (fun d => !(Letter.isAlphabetic d || d == '_')) = true := by
    decide +kernel
  have hword := List.all_eq_true.mp hspecial c hmem
  simp only [hc] at hword
  cases hword

theorem not_isDigit_of_word (hc : Letter.isAlphabetic c || c == '_') : c.isDigit = false := by
  rw [Bool.eq_false_iff]
  intro hdigit
  rw [Letter.isDigit_iff] at hdigit
  rw [Bool.or_eq_true, beq_iff_eq] at hc
  rcases hc with hc | rfl
  · have hascii : Letter.isAscii c := by
      simp only [Letter.isAscii, decide_eq_true_eq]
      omega
    rw [Letter.isAlphabetic, if_pos hascii, Letter.isAlpha_iff, Letter.isUpper_iff,
      Letter.isLower_iff] at hc
    omega
  · exact absurd hdigit.2 (by decide)

theorem next_point : next attached '.' rest =
    (point attached rest).map fun x => (.token x.1, x.2 - 1) := by
  simp [next, isSpace]

/-- A character of operators starts an operator, unless it starts a comment or is a point. -/
theorem next_operator (hc : isOperatorChar c) (hpoint : c ≠ '.')
    (hrest : c = '-' → rest.head? ≠ some '-') : next attached c rest =
      .ok (.token (operator attached (c :: rest)).1, (operator attached (c :: rest)).2 - 1) := by
  by_cases hminus : c = '-'
  · subst hminus
    simp [next, isSpace, hrest rfl, show Letter.isAlphabetic '-' = false by decide,
      show isOperatorChar '-' = true by decide, Except.map]
  · have hother : "+-*/=<>:&|^?%!.".toList.all (fun d => d == '.' || d == '-' ||
        (!special.contains d && !d.isDigit && !(Letter.isAlphabetic d || d == '_'))) = true := by
      decide +kernel
    have hmem : c ∈ "+-*/=<>:&|^?%!.".toList := by simpa [isOperatorChar] using hc
    have hplain := List.all_eq_true.mp hother c hmem
    simp only [beq_false_of_ne hpoint, beq_false_of_ne hminus, Bool.false_or, Bool.and_eq_true,
      Bool.not_eq_true', List.contains_eq_mem, decide_eq_false_iff_not] at hplain
    rcases hplain with ⟨⟨hspecial, hdigit⟩, hword⟩
    rw [next_of_not_special hspecial, hdigit, hword, if_neg Bool.false_ne_true,
      if_neg Bool.false_ne_true, if_pos hc]

/-- What has its front is read. -/
theorem next_of_front (h : Front attached c rest cls n) : next attached c rest = .ok (cls, n) := by
  cases h with
  | blank hc => simp [next, hc]
  | lineComment hc hrest =>
    subst hc
    simp [next, isSpace, hrest]
  | blockComment hc hrest hclose =>
    subst hc
    simp [next, isSpace, hrest, hclose]
  | mark hc hrest =>
    simp only [marks, List.mem_cons, Prod.mk.injEq, List.not_mem_nil, or_false] at hc
    rcases hc with ⟨rfl, rfl⟩ | ⟨rfl, rfl⟩ | ⟨rfl, rfl⟩ | ⟨rfl, rfl⟩ | ⟨rfl, rfl⟩ | ⟨rfl, rfl⟩ |
      ⟨rfl, rfl⟩ | ⟨rfl, rfl⟩ <;> simp [next, isSpace, hrest]
  | string hc h | character hc h =>
    subst hc
    simp [next, isSpace, h, Except.map]
  | point hc h =>
    subst hc
    rw [next_point, h]
    rfl
  | number hc h =>
    rw [next_of_not_special (not_mem_special_of_isDigit hc), if_pos hc, h]
    rfl
  | word hc =>
    rw [next_of_not_special (not_mem_special_of_word hc), not_isDigit_of_word hc,
      if_neg Bool.false_ne_true, if_pos hc]
  | operator hc hpoint hrest => exact next_operator hc hpoint hrest

/-! ## From what is read to its front -/

theorem read_ok {result : Except Fault (Kind × Nat)}
    (h : (result.map fun x => (Class.token x.1, x.2 - 1)) = .ok (cls, n)) :
    ∃ k m, result = .ok (k, m) ∧ cls = .token k ∧ n = m - 1 := by
  rcases map_ok_iff.mp h with ⟨⟨k, m⟩, hok, heq⟩
  cases heq
  exact ⟨k, m, hok, rfl, rfl⟩

/-- What is read has its front. -/
theorem front_of_next (h : next attached c rest = .ok (cls, n)) : Front attached c rest cls n := by
  -- the tests are those of `next`, except that comments and marks are told apart first
  by_cases hblock : c = '{' ∧ rest.head? = some '-'
  · rcases hblock with ⟨rfl, hrest⟩
    simp only [next, isSpace, hrest] at h
    cases hclose : closeComment 0 ('{' :: rest) with
    | none => simp [hclose] at h
    | some m =>
      obtain ⟨rfl, rfl⟩ : Class.blockComment = cls ∧ m - 1 = n := by simpa [hclose] using h
      exact .blockComment rfl hrest hclose
  by_cases hmark : ∃ k, (c, k) ∈ marks
  · rcases hmark with ⟨k, hk⟩
    have hfront : Front attached c rest (.token k) 0 :=
      .mark hk fun hc hrest => hblock ⟨hc, hrest⟩
    rw [next_of_front hfront] at h
    cases h
    exact hfront
  by_cases hspace : isSpace c
  · rw [next_of_front (.blank hspace)] at h
    cases h
    exact .blank hspace
  by_cases hline : c = '-' ∧ rest.head? = some '-'
  · rw [next_of_front (.lineComment hline.1 hline.2)] at h
    cases h
    exact .lineComment hline.1 hline.2
  have hmarks : ∀ p ∈ marks, c ≠ p.1 := by
    rintro ⟨d, k⟩ hk rfl
    exact hmark ⟨k, hk⟩
  simp only [marks, List.forall_mem_cons] at hmarks
  simp only [next, hspace, hline, hmarks, if_false] at h
  by_cases hstring : c = '"'
  · rw [if_pos hstring] at h
    rcases read_ok h with ⟨k, m, hok, rfl, rfl⟩
    exact .string hstring hok
  rw [if_neg hstring] at h
  by_cases hchar : c = '\''
  · rw [if_pos hchar] at h
    rcases read_ok h with ⟨k, m, hok, rfl, rfl⟩
    exact .character hchar hok
  rw [if_neg hchar] at h
  by_cases hpoint : c = '.'
  · rw [if_pos hpoint] at h
    rcases read_ok h with ⟨k, m, hok, rfl, rfl⟩
    exact .point hpoint hok
  rw [if_neg hpoint] at h
  by_cases hdigit : c.isDigit
  · rw [if_pos hdigit] at h
    rcases read_ok h with ⟨k, m, hok, rfl, rfl⟩
    exact .number hdigit hok
  rw [if_neg hdigit] at h
  by_cases hword : Letter.isAlphabetic c || c == '_'
  · rw [if_pos hword] at h
    cases h
    exact .word hword
  rw [if_neg hword] at h
  by_cases hop : isOperatorChar c
  · rw [if_pos hop] at h
    cases h
    exact .operator hop hpoint fun hc hrest => hline ⟨hc, hrest⟩
  · rw [if_neg hop] at h
    cases h

/-- Reading and the front of the text agree. -/
theorem next_eq_ok_iff : next attached c rest = .ok (cls, n) ↔ Front attached c rest cls n :=
  ⟨front_of_next, next_of_front⟩

end Terse.Lexeme
