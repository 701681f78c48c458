import Terse.Proofs.Token.Lookahead

/-!
# How far lexemes reach

Each reader counts the characters that it has used up, and never counts more than there are: a
lexeme ends inside the text that it is read from, or with it.
-/

namespace Terse.Lexeme

open Token (Kind)

variable {attached : Option Kind} {c : Char} {cs rest : List Char} {k : Kind} {n : Nat}

/-- A comment is closed within the characters that are left. -/
theorem closeComment_le {depth : Nat} (h : closeComment depth cs = some n) : n ≤ cs.length := by
  rw [closeComment_eq_some_iff] at h
  induction h with
  | nested _ ih | closed _ _ ih => exact Nat.succ_le_succ (Nat.succ_le_succ ih)
  | last => exact Nat.le_add_left 2 _
  | plain _ _ _ ih => exact Nat.succ_le_succ ih

/-! ## Words and operators -/

theorem length_word_le (cs : List Char) : (word cs).length ≤ cs.length :=
  (word_isPrefix cs).length_le

/-- The segments of a name are read within the characters that are left. -/
theorem laterSegments_le {skip : Nat} (hskip : skip ≤ cs.length) :
    (laterSegments skip cs).2.2 ≤ cs.length := by
  induction cs generalizing skip with
  | nil => rw [laterSegments]; exact le_rfl
  | cons c cs ih =>
    cases skip with
    | succ skip =>
      rw [laterSegments]
      exact Nat.succ_le_succ (ih (Nat.le_of_succ_le_succ hskip))
    | zero =>
      rw [laterSegments]
      split
      · split
        · exact Nat.succ_le_succ (ih (length_word_le cs))
        · split
          · exact Nat.succ_le_succ (length_word_le cs)
          · exact Nat.zero_le _
      · exact Nat.zero_le _

theorem identifier_le (c : Char) (cs : List Char) :
    (identifier (c :: cs)).2 ≤ (c :: cs).length := by
  have hword := length_word_le (c :: cs)
  have hlater : (laterSegments 0 ((c :: cs).drop (word (c :: cs)).length)).2.2 ≤
      (c :: cs).length - (word (c :: cs)).length := by
    rw [← List.length_drop]
    exact laterSegments_le (Nat.zero_le _)
  unfold identifier
  dsimp only
  split
  · exact Nat.succ_le_succ (Nat.zero_le _)
  split
  · exact (Nat.add_le_add_left hlater _).trans_eq (Nat.add_sub_cancel' hword)
  · split <;> exact hword

/-- What starts with a point is read within the characters that are left. -/
theorem point_le (h : point attached cs = .ok (k, n)) : n ≤ cs.length + 1 := by
  unfold point at h
  split at h
  · cases h
    exact Nat.succ_le_succ (Nat.succ_le_succ (Nat.zero_le _))
  · split at h
    · cases h
      exact Nat.succ_le_succ (length_word_le _)
    · cases h
  · cases h

theorem operator_le (attached : Option Kind) (cs : List Char) :
    (operator attached cs).2 ≤ cs.length :=
  (List.takeWhile_prefix _).length_le

/-! ## Numbers -/

theorem numeral_le (isFloat : Bool) (cs : List Char) :
    (numeral isFloat cs).1.length ≤ cs.length := by
  induction isFloat, cs using numeral.induct with
  | case1 => exact le_rfl
  | case2 isFloat c cs hdigit _ _ _ ih =>
    rw [numeral_digit hdigit]
    exact Nat.succ_le_succ ih
  | case3 isFloat c cs hdigit hpoint _ _ _ ih =>
    rw [numeral_fraction hdigit hpoint]
    exact Nat.succ_le_succ ih
  | case4 isFloat c hdigit hmark cs _ _ _ _ ih =>
    rw [numeral_exponent_signed (.inl rfl) hdigit hmark]
    exact Nat.succ_le_succ (Nat.succ_le_succ ih)
  | case5 isFloat c hdigit hmark cs _ _ _ _ ih =>
    rw [numeral_exponent_signed (.inr rfl) hdigit hmark]
    exact Nat.succ_le_succ (Nat.succ_le_succ ih)
  | case6 isFloat c hdigit hmark cs hplus hminus _ _ _ hpoint ih =>
    rw [numeral_exponent hdigit hpoint hmark (head?_ne_of_forall_ne hplus)
      (head?_ne_of_forall_ne hminus)]
    exact Nat.succ_le_succ ih
  | case7 isFloat c cs hdigit hpoint hmark =>
    rw [numeral_end hdigit hpoint hmark]
    exact Nat.zero_le _

/-- A number is read within the characters that are left. -/
theorem number_le (h : number cs = .ok (k, n)) : n ≤ cs.length := by
  have hhex : ∀ {ds}, hexNumber ds = .ok (k, n) → n ≤ ds.length + 2 := by
    intro ds h
    unfold hexNumber at h
    dsimp only at h
    split at h
    · cases h
      exact Nat.add_le_add_right (length_word_le ds) 2
    · cases h
  unfold number at h
  split at h
  · exact hhex h
  · exact hhex h
  · unfold decimalNumber at h
    dsimp only at h
    split at h
    · cases h
      exact numeral_le false cs
    · cases h

/-! ## Texts and characters -/

/-- The body of a text is read within the characters that are left. -/
theorem stringBody_le {isTriple : Bool} {skip : Nat} {value : List Char}
    (h : stringBody isTriple skip cs = some (value, n)) : n ≤ cs.length := by
  induction cs generalizing skip value n with
  | nil => simp [stringBody] at h
  | cons c cs ih =>
    cases skip with
    | succ skip =>
      rw [stringBody] at h
      obtain ⟨⟨value', l⟩, hl, heq⟩ := Option.map_eq_some_iff.mp h
      cases heq
      exact Nat.succ_le_succ (ih hl)
    | zero =>
      rw [stringBody] at h
      split at h
      · cases h
      split at h
      · rename_i hquote
        cases h
        cases isTriple with
        | false => exact Nat.succ_le_succ (Nat.zero_le _)
        | true =>
          -- three quotes close the string, and all three are in the text
          have htwo : cs.take 2 = ['"', '"'] := by simpa using hquote.2
          have hlength := congrArg List.length htwo
          simp only [List.length_take, List.length_cons, List.length_nil] at hlength
          simp only [quoteCount, if_true, List.length_cons]
          omega
      split at h
      · split at h
        · cases h
        · obtain ⟨⟨value', l⟩, hl, heq⟩ := Option.map_eq_some_iff.mp h
          cases heq
          exact Nat.succ_le_succ (ih hl)
      · obtain ⟨⟨value', l⟩, hl, heq⟩ := Option.map_eq_some_iff.mp h
        cases heq
        exact Nat.succ_le_succ (ih hl)

/-- A text in quotes is read within the characters that are left. -/
theorem string_le (h : string cs = .ok (k, n)) : n ≤ cs.length + 1 := by
  unfold string at h
  dsimp only at h
  split at h
  · rename_i value l hbody
    cases h
    have hle := stringBody_le hbody
    have hquote := one_le_quoteCount (decide (cs.take 2 = ['"', '"']))
    have hpos := skip_lt_stringBody hbody
    rw [List.length_drop] at hle
    omega
  · cases h

/-- A character in quotes is read within the characters that are left. -/
theorem character_le (h : character cs = .ok (k, n)) : n ≤ cs.length + 1 := by
  unfold character at h
  dsimp only at h
  split at h
  · split at h
    · -- the closing quote stands behind what is counted
      rename_i l _ hquote
      cases h
      have hlt : l < cs.length := by
        by_contra hle
        rw [List.drop_eq_nil_of_le (Nat.le_of_not_lt hle)] at hquote
        cases hquote
      exact Nat.succ_le_succ hlt
    · cases h
  · cases h

/-! ## Any lexeme -/

/-- A lexeme takes no more characters than stand behind its first one. -/
theorem next_le {cls : Class} (h : next attached c rest = .ok (cls, n)) : n ≤ rest.length := by
  cases front_of_next h with
  | blank => exact Nat.zero_le _
  | lineComment => exact (List.takeWhile_prefix _).length_le
  | blockComment _ _ hclose => exact Nat.sub_le_of_le_add (closeComment_le hclose)
  | mark => exact Nat.zero_le _
  | string _ hread => exact Nat.sub_le_of_le_add (string_le hread)
  | character _ hread => exact Nat.sub_le_of_le_add (character_le hread)
  | point _ hread => exact Nat.sub_le_of_le_add (point_le hread)
  | number _ hread => exact Nat.sub_le_of_le_add (number_le hread)
  | word => exact Nat.sub_le_of_le_add (identifier_le c rest)
  | operator => exact Nat.sub_le_of_le_add (operator_le attached _)

end Terse.Lexeme
