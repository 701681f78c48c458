import Terse.Proofs.Token.Regular

/-!
# Texts cut off behind a lexeme

Readers look past the end of what they read, but only to see that it goes no further. A text that
is cut off there, or anywhere behind it, starts with the same lexeme. The one exception is a
minus sign, which is a negation only in front of its operand.
-/

namespace Terse.Lexeme

open Token (Kind)

/-! ## Lists that are cut off -/

/-- What is taken while a test holds is taken off every front that holds it. -/
theorem takeWhile_take {α : Type} {p : α → Bool} {xs : List α} {m : Nat}
    (h : (xs.takeWhile p).length ≤ m) : (xs.take m).takeWhile p = xs.takeWhile p := by
  induction xs generalizing m with
  | nil => simp
  | cons x xs ih =>
    by_cases hx : p x
    · rw [List.takeWhile_cons_of_pos hx] at h ⊢
      rw [List.length_cons] at h
      obtain ⟨m, rfl⟩ : ∃ k, m = k + 1 := ⟨m - 1, by omega⟩
      rw [List.take_succ_cons, List.takeWhile_cons_of_pos hx, ih (by omega)]
    · rw [List.takeWhile_cons_of_neg hx]
      cases m with
      | zero => simp
      | succ m => rw [List.take_succ_cons, List.takeWhile_cons_of_neg hx]

/-- The first character stays, unless nothing does. -/
theorem head?_take {cs : List Char} {m : Nat} (h : 0 < m) : (cs.take m).head? = cs.head? := by
  obtain ⟨m, rfl⟩ : ∃ k, m = k + 1 := ⟨m - 1, by omega⟩
  cases cs <;> rfl

/-- A text that is no `c` with something behind it has another first character. -/
theorem head?_ne_of_forall_ne {cs : List Char} {c : Char} (h : ∀ ds, cs = c :: ds → False) :
    cs.head? ≠ some c := by
  intro hhead
  obtain ⟨ds, hds⟩ := List.head?_eq_some_iff.mp hhead
  exact h ds hds

theorem head?_take_ne {cs : List Char} {c : Char} {m : Nat} (h : cs.head? ≠ some c) :
    (cs.take m).head? ≠ some c := by
  cases m with
  | zero => simp
  | succ m => rwa [head?_take (Nat.succ_pos m)]

/-- A word is read off every front that holds it. -/
theorem word_take {cs : List Char} {m : Nat} (h : (word cs).length ≤ m) :
    word (cs.take m) = word cs := takeWhile_take h

/-! ## Comments -/

theorem closeComment_cons {depth : Nat} {c : Char} {cs : List Char}
    (hopen : c = '{' → cs.head? ≠ some '-') (hclose : c = '-' → cs.head? ≠ some '}') :
    closeComment depth (c :: cs) = (closeComment depth cs).map (· + 1) := by
  rw [closeComment]
  · rintro rest rfl rfl
    exact hopen rfl rfl
  · rintro rest rfl rfl
    exact hclose rfl rfl

/-- The outermost of `depth` open comments ends behind `n` characters. -/
inductive CommentEnd : Nat → List Char → Nat → Prop where
  | nested {depth n : Nat} {cs : List Char} (h : CommentEnd (depth + 1) cs n) :
      CommentEnd depth ('{' :: '-' :: cs) (n + 2)
  | last {depth : Nat} {cs : List Char} (hdepth : depth ≤ 1) :
      CommentEnd depth ('-' :: '}' :: cs) 2
  | closed {depth n : Nat} {cs : List Char} (hdepth : ¬ depth ≤ 1)
      (h : CommentEnd (depth - 1) cs n) : CommentEnd depth ('-' :: '}' :: cs) (n + 2)
  | plain {depth n : Nat} {c : Char} {cs : List Char} (hopen : c = '{' → cs.head? ≠ some '-')
      (hclose : c = '-' → cs.head? ≠ some '}') (h : CommentEnd depth cs n) :
      CommentEnd depth (c :: cs) (n + 1)

/-- A comment is closed where its markers balance for the first time. -/
theorem closeComment_eq_some_iff {depth n : Nat} {cs : List Char} :
    closeComment depth cs = some n ↔ CommentEnd depth cs n := by
  constructor
  · intro h
    induction depth, cs using closeComment.induct generalizing n with
    | case1 depth cs ih =>
      rw [closeComment] at h
      obtain ⟨k, hk, rfl⟩ := Option.map_eq_some_iff.mp h
      exact .nested (ih hk)
    | case2 depth cs hdepth =>
      rw [closeComment, if_pos hdepth] at h
      cases h
      exact .last hdepth
    | case3 depth cs hdepth ih =>
      rw [closeComment, if_neg hdepth] at h
      obtain ⟨k, hk, rfl⟩ := Option.map_eq_some_iff.mp h
      exact .closed hdepth (ih hk)
    | case4 depth c cs hopen hclose ih =>
      have hopen : c = '{' → cs.head? ≠ some '-' := fun hc =>
        head?_ne_of_forall_ne fun ds => hopen ds hc
      have hclose : c = '-' → cs.head? ≠ some '}' := fun hc =>
        head?_ne_of_forall_ne fun ds => hclose ds hc
      rw [closeComment_cons hopen hclose] at h
      obtain ⟨k, hk, rfl⟩ := Option.map_eq_some_iff.mp h
      exact .plain hopen hclose (ih hk)
    | case5 => cases h
  · intro h
    induction h with
    | nested _ ih => rw [closeComment, ih, Option.map_some]
    | last hdepth => rw [closeComment, if_pos hdepth]
    | closed hdepth _ ih => rw [closeComment, if_neg hdepth, ih, Option.map_some]
    | plain hopen hclose _ ih => rw [closeComment_cons hopen hclose, ih, Option.map_some]

theorem closeComment_pos {depth n : Nat} {cs : List Char} (h : closeComment depth cs = some n) :
    0 < n := by
  cases closeComment_eq_some_iff.mp h <;> exact Nat.succ_pos _

/-- The end of a comment is found in every front that holds it. -/
theorem closeComment_take {depth n m : Nat} {cs : List Char}
    (h : closeComment depth cs = some n) (hm : n ≤ m) :
    closeComment depth (cs.take m) = some n := by
  rw [closeComment_eq_some_iff] at h ⊢
  induction h generalizing m with
  | nested _ ih =>
    obtain ⟨m, rfl⟩ : ∃ l, m = l + 2 := ⟨m - 2, by omega⟩
    exact .nested (ih (by omega))
  | last hdepth =>
    obtain ⟨m, rfl⟩ : ∃ l, m = l + 2 := ⟨m - 2, by omega⟩
    exact .last hdepth
  | closed hdepth _ ih =>
    obtain ⟨m, rfl⟩ : ∃ l, m = l + 2 := ⟨m - 2, by omega⟩
    exact .closed hdepth (ih (by omega))
  | plain hopen hclose _ ih =>
    obtain ⟨m, rfl⟩ : ∃ l, m = l + 1 := ⟨m - 1, by omega⟩
    exact .plain (fun hc => head?_take_ne (hopen hc)) (fun hc => head?_take_ne (hclose hc))
      (ih (by omega))

/-! ## Words -/

/-- At least what is passed over is counted. -/
theorem skip_le_laterSegments {skip : Nat} {cs : List Char} (hskip : skip ≤ cs.length) :
    skip ≤ (laterSegments skip cs).2.2 := by
  induction cs generalizing skip with
  | nil =>
    rw [List.length_nil] at hskip
    omega
  | cons c cs ih =>
    cases skip with
    | zero => exact Nat.zero_le _
    | succ skip =>
      rw [List.length_cons] at hskip
      exact Nat.succ_le_succ (ih (by omega))

theorem word_pos {c : Char} {cs : List Char} (hhead : cs.head? = some c)
    (hc : Letter.isAlphabetic c) : 0 < (word cs).length := by
  rcases List.head?_eq_some_iff.mp hhead with ⟨cs, rfl⟩
  rw [word_cons (Letter.isWordChar_of_isAlphabetic hc)]
  exact Nat.succ_pos _

/-- The segments of a name are read off every front that holds them. -/
theorem laterSegments_take {skip n m : Nat} {cs : List Char} {segments : List String}
    {last : Option String} (h : laterSegments skip cs = (segments, last, n)) (hm : n ≤ m) :
    laterSegments skip (cs.take m) = (segments, last, n) := by
  induction cs generalizing skip segments last n m with
  | nil => rwa [List.take_nil]
  | cons c cs ih =>
    cases skip with
    | succ skip =>
      rw [laterSegments] at h
      cases h
      obtain ⟨m, rfl⟩ : ∃ l, m = l + 1 := ⟨m - 1, by omega⟩
      rw [List.take_succ_cons, laterSegments, ih rfl (by omega)]
    | zero =>
      rw [laterSegments] at h
      split at h
      · rename_i first hdot hhead
        split at h
        · -- a capitalized segment and what follows it
          rename_i hupper
          have hskip := skip_le_laterSegments (word_isPrefix cs).length_le
          cases hlater : laterSegments (word cs).length cs with | mk segments' later
          rcases later with ⟨last', k⟩
          rw [hlater] at h hskip
          cases h
          dsimp only at hskip
          have hpos := word_pos hhead (Letter.isAlphabetic_of_isUppercase hupper)
          obtain ⟨m, rfl⟩ : ∃ l, m = l + 1 := ⟨m - 1, by omega⟩
          rw [List.take_succ_cons, laterSegments, hdot, head?_take (by omega), hhead]
          dsimp only
          rw [if_pos hupper, word_take (by omega), ih hlater (by omega)]
        split at h
        · rename_i hupper hlower
          cases h
          have hpos := word_pos hhead (Letter.isAlphabetic_of_isLowercase hlower)
          obtain ⟨m, rfl⟩ : ∃ l, m = l + 1 := ⟨m - 1, by omega⟩
          rw [List.take_succ_cons, laterSegments, hdot, head?_take (by omega), hhead]
          dsimp only
          rw [if_neg hupper, if_pos hlower, word_take (by omega)]
        · -- a point that starts no segment stays one, with less behind it
          rename_i hupper hlower
          cases h
          cases m with
          | zero => rw [List.take_zero, laterSegments]
          | succ m =>
            cases m with
            | zero => simp [laterSegments]
            | succ m =>
              rw [List.take_succ_cons, laterSegments, hdot, head?_take (by omega), hhead]
              dsimp only
              rw [if_neg hupper, if_neg hlower]
      · rename_i hnone
        cases h
        cases m with
        | zero => rw [List.take_zero, laterSegments]
        | succ m =>
          rw [List.take_succ_cons, laterSegments]
          split
          · rename_i first hdot hhead
            cases m with
            | zero => simp at hhead
            | succ m =>
              rw [head?_take (Nat.succ_pos m)] at hhead
              exact absurd hhead (hnone first hdot)
          · rfl

theorem length_word_le_identifier (cs : List Char) :
    (word cs).length ≤ (identifier cs).2 := by
  unfold identifier
  dsimp only
  split
  · rename_i hunderscore
    have hword : word cs = ['_'] := by
      rw [beq_iff_eq, ← String.toList_inj] at hunderscore
      simpa using hunderscore
    simp [hword]
  split
  · exact Nat.le_add_right _ _
  · split <;> exact le_rfl

/-- An identifier is read off every front that holds it. -/
theorem identifier_take {cs : List Char} {m : Nat} (hm : (identifier cs).2 ≤ m) :
    identifier (cs.take m) = identifier cs := by
  have hfirst : word (cs.take m) = word cs := word_take ((length_word_le_identifier cs).trans hm)
  unfold identifier at hm ⊢
  rw [hfirst]
  dsimp only at hm ⊢
  split
  · rfl
  rename_i hunderscore
  rw [if_neg hunderscore] at hm
  split
  · rename_i hupper
    rw [if_pos hupper] at hm
    dsimp only at hm
    rw [List.drop_take, laterSegments_take rfl (by omega)]
  · rfl

/-! ## Points and operators -/

/-- What starts with a point is read off every front that holds it. -/
theorem point_take {attached : Option Kind} {rest : List Char} {k : Kind} {n m : Nat}
    (h : point attached rest = .ok (k, n)) (hm : n ≤ m + 1) :
    point attached (rest.take m) = .ok (k, n) := by
  unfold point at h
  split at h
  · cases h
    -- the second point is in the part that is kept
    obtain ⟨m, rfl⟩ : ∃ l, m = l + 1 := ⟨m - 1, by omega⟩
    rfl
  · rename_i c cs hdots
    split at h
    · rename_i hlower
      have hhead : (c :: cs).head? = some c := rfl
      have hpos := word_pos hhead (Letter.isAlphabetic_of_isLowercase hlower)
      simp only [Except.ok.injEq, Prod.mk.injEq] at h
      rcases h with ⟨rfl, rfl⟩
      -- the word behind the point ends inside the part that is kept
      have hword : word ((c :: cs).take m) = word (c :: cs) := word_take (by omega)
      obtain ⟨m, rfl⟩ : ∃ l, m = l + 1 := ⟨m - 1, by omega⟩
      rw [List.take_succ_cons] at hword ⊢
      rw [point, if_pos hlower, hword]
      exact hdots
    · cases h
  · cases h

/-- Only a single minus sign depends on more than its own characters. -/
theorem operator_congr {attached attached' : Option Kind} {cs ds : List Char}
    (h : cs.takeWhile isOperatorChar = ds.takeWhile isOperatorChar)
    (hminus : ds.takeWhile isOperatorChar ≠ ['-']) :
    operator attached cs = operator attached' ds := by
  unfold operator
  rw [h]
  dsimp only
  split <;> first | rfl | exact absurd (by assumption) hminus

/-- An operand stands at the front of a text, right behind a minus sign. -/
def operandFollows (cs : List Char) : Bool :=
  match cs.head? with
  | some c => !Letter.isBlank c && c != ')'
  | none => false

/-- A lone minus is a sign or an operator, by what stands before and behind it. -/
theorem operator_minus {attached : Option Kind} {cs : List Char}
    (h : cs.takeWhile isOperatorChar = ['-']) :
    operator attached cs =
      (if (attached.map Kind.opensOperand).getD true && operandFollows (cs.drop 1) then .minus
        else .operator "-", 1) := by
  unfold operator
  rw [h]
  rfl

theorem operandFollows_take {cs : List Char} {m : Nat} (h : operandFollows cs = true → 0 < m) :
    operandFollows (cs.take m) = operandFollows cs := by
  cases m with
  | zero =>
    have hnot := Bool.eq_false_iff.mpr fun hcs => absurd (h hcs) (Nat.lt_irrefl 0)
    rw [hnot]
    rfl
  | succ m => rw [operandFollows, head?_take (Nat.succ_pos m), operandFollows]

/-- An operator is read off every front that holds it, a sign of those with a character more. -/
theorem operator_take {attached : Option Kind} {cs : List Char} {m : Nat}
    (hm : (operator attached cs).2 ≤ m)
    (hminus : (operator attached cs).1 = .minus → (operator attached cs).2 < m) :
    operator attached (cs.take m) = operator attached cs := by
  have hsymbol : (cs.take m).takeWhile isOperatorChar = cs.takeWhile isOperatorChar :=
    takeWhile_take hm
  by_cases hsingle : cs.takeWhile isOperatorChar = ['-']
  · rw [operator_minus hsingle] at hminus
    rw [operator_minus (hsymbol.trans hsingle), operator_minus hsingle, List.drop_take]
    cases hopens : (attached.map Kind.opensOperand).getD true with
    | false => simp
    | true =>
      rw [operandFollows_take]
      intro hfollows
      rw [hopens, hfollows] at hminus
      exact Nat.sub_pos_of_lt (hminus rfl)
  · exact operator_congr hsymbol hsingle

/-! ## Numbers -/

/-- The character is the point of a fraction. -/
def startsFraction (isFloat : Bool) (c : Char) (cs : List Char) : Bool :=
  c == '.' && !isFloat && (cs.head?.map Char.isDigit).getD false

/-- A numeral with one more character at its front. -/
def grow (c : Char) (x : List Char × Bool) : List Char × Bool := (c :: x.1, x.2)

variable {isFloat : Bool} {c : Char} {cs : List Char}

theorem numeral_cons : numeral isFloat (c :: cs) =
    if c.isDigit then grow c (numeral isFloat cs)
    else if startsFraction isFloat c cs then grow c (numeral true cs)
    else if Numeral.isExponentMark c then match cs with
      | '+' :: rest => grow c (grow '+' (numeral true rest))
      | '-' :: rest => grow c (grow '-' (numeral true rest))
      | rest => grow c (numeral true rest)
    else ([], isFloat) := by
  conv_lhs => unfold numeral
  rfl

theorem numeral_digit (hc : c.isDigit) :
    numeral isFloat (c :: cs) = grow c (numeral isFloat cs) := by
  rw [numeral_cons, if_pos hc]

theorem numeral_fraction (hdigit : ¬c.isDigit) (hc : startsFraction isFloat c cs) :
    numeral isFloat (c :: cs) = grow c (numeral true cs) := by
  rw [numeral_cons, if_neg hdigit, if_pos hc]

theorem numeral_exponent_signed {sign : Char} (hsign : sign = '+' ∨ sign = '-')
    (hdigit : ¬c.isDigit) (hc : Numeral.isExponentMark c) :
    numeral isFloat (c :: sign :: cs) = grow c (grow sign (numeral true cs)) := by
  have hpoint : ¬startsFraction isFloat c (sign :: cs) := by
    rcases hsign with rfl | rfl <;> simp [startsFraction]
  rw [numeral_cons, if_neg hdigit, if_neg hpoint, if_pos hc]
  rcases hsign with rfl | rfl <;> rfl

theorem numeral_exponent (hdigit : ¬c.isDigit) (hpoint : ¬startsFraction isFloat c cs)
    (hc : Numeral.isExponentMark c) (hplus : cs.head? ≠ some '+') (hminus : cs.head? ≠ some '-') :
    numeral isFloat (c :: cs) = grow c (numeral true cs) := by
  rw [numeral_cons, if_neg hdigit, if_neg hpoint, if_pos hc]
  split
  · exact absurd rfl hplus
  · exact absurd rfl hminus
  · rfl

theorem numeral_end (hdigit : ¬c.isDigit) (hpoint : ¬startsFraction isFloat c cs)
    (hc : ¬Numeral.isExponentMark c) : numeral isFloat (c :: cs) = ([], isFloat) := by
  rw [numeral_cons, if_neg hdigit, if_neg hpoint, if_neg hc]

theorem not_startsFraction_take {m : Nat} (h : ¬startsFraction isFloat c cs) :
    ¬startsFraction isFloat c (cs.take m) := by
  cases m with
  | zero => simp [startsFraction]
  | succ m => rwa [startsFraction, head?_take (Nat.succ_pos m)]

/-- A fraction starts with a digit, which is read. -/
theorem numeral_pos_of_startsFraction (h : startsFraction isFloat c cs) :
    0 < (numeral true cs).1.length := by
  cases cs with
  | nil => simp [startsFraction] at h
  | cons d cs =>
    have hd : d.isDigit := by simp_all [startsFraction]
    rw [numeral_digit hd]
    exact Nat.succ_pos _

/-- The characters of a number are read off every front that holds them. -/
theorem numeral_take {m : Nat} (hm : (numeral isFloat cs).1.length ≤ m) :
    numeral isFloat (cs.take m) = numeral isFloat cs := by
  -- the cases are those of the numeral, and each character that it takes is one less to keep
  induction isFloat, cs using numeral.induct generalizing m with
  | case1 => rw [List.take_nil]
  | case2 isFloat c cs hdigit _ _ _ ih =>
    rw [numeral_digit hdigit] at hm ⊢
    obtain ⟨m, rfl⟩ : ∃ l, m = l + 1 := ⟨m - 1, by simp [grow] at hm; omega⟩
    rw [List.take_succ_cons, numeral_digit hdigit, ih (Nat.le_of_succ_le_succ hm)]
  | case3 isFloat c cs hdigit hpoint _ _ _ ih =>
    rw [numeral_fraction hdigit hpoint] at hm ⊢
    obtain ⟨m, rfl⟩ : ∃ l, m = l + 1 := ⟨m - 1, by simp [grow] at hm; omega⟩
    have hle := Nat.le_of_succ_le_succ hm
    have hpos := numeral_pos_of_startsFraction hpoint
    have hpoint' : startsFraction isFloat c (cs.take m) := by
      rw [startsFraction, head?_take (hpos.trans_le hle)]
      exact hpoint
    rw [List.take_succ_cons, numeral_fraction hdigit hpoint', ih hle]
  | case4 isFloat c hdigit hmark cs _ _ _ _ ih =>
    rw [numeral_exponent_signed (.inl rfl) hdigit hmark] at hm ⊢
    obtain ⟨m, rfl⟩ : ∃ l, m = l + 2 := ⟨m - 2, by simp [grow] at hm; omega⟩
    rw [List.take_succ_cons, List.take_succ_cons, numeral_exponent_signed (.inl rfl) hdigit hmark,
      ih (Nat.le_of_succ_le_succ (Nat.le_of_succ_le_succ hm))]
  | case5 isFloat c hdigit hmark cs _ _ _ _ ih =>
    rw [numeral_exponent_signed (.inr rfl) hdigit hmark] at hm ⊢
    obtain ⟨m, rfl⟩ : ∃ l, m = l + 2 := ⟨m - 2, by simp [grow] at hm; omega⟩
    rw [List.take_succ_cons, List.take_succ_cons, numeral_exponent_signed (.inr rfl) hdigit hmark,
      ih (Nat.le_of_succ_le_succ (Nat.le_of_succ_le_succ hm))]
  | case6 isFloat c hdigit hmark cs hplus hminus _ _ _ hpoint ih =>
    have hplus : cs.head? ≠ some '+' := head?_ne_of_forall_ne hplus
    have hminus : cs.head? ≠ some '-' := head?_ne_of_forall_ne hminus
    rw [numeral_exponent hdigit hpoint hmark hplus hminus] at hm ⊢
    obtain ⟨m, rfl⟩ : ∃ l, m = l + 1 := ⟨m - 1, by simp [grow] at hm; omega⟩
    rw [List.take_succ_cons, numeral_exponent hdigit (not_startsFraction_take hpoint) hmark
      (head?_take_ne hplus) (head?_take_ne hminus), ih (Nat.le_of_succ_le_succ hm)]
  | case7 isFloat c cs hdigit hpoint hmark =>
    rw [numeral_end hdigit hpoint hmark]
    cases m with
    | zero => rfl
    | succ m =>
      rw [List.take_succ_cons, numeral_end hdigit (not_startsFraction_take hpoint) hmark]

/-- A hexadecimal number is read off every front that holds it. -/
theorem hexNumber_take {k : Kind} {n m : Nat} (h : hexNumber cs = .ok (k, n)) (hm : n ≤ m + 2) :
    2 ≤ n ∧ hexNumber (cs.take m) = .ok (k, n) := by
  have hn : n = (word cs).length + 2 := by
    unfold hexNumber at h
    dsimp only at h
    split at h
    · cases h
      rfl
    · cases h
  refine ⟨by omega, ?_⟩
  rw [← h, hexNumber, word_take (by omega), hexNumber]

/-- A decimal number is read off every front that holds it. -/
theorem decimalNumber_take {k : Kind} {n m : Nat} (h : decimalNumber cs = .ok (k, n))
    (hm : n ≤ m) : decimalNumber (cs.take m) = .ok (k, n) := by
  have hn : n = (numeral false cs).1.length := by
    unfold decimalNumber at h
    dsimp only at h
    split at h
    · cases h
      rfl
    · cases h
  rw [← h, decimalNumber, numeral_take (by omega), decimalNumber]

/-- The marks of a hexadecimal number are at the front of what is cut off only if they were
before. -/
theorem exists_of_take_eq {d e : Char} {ds : List Char} {m : Nat} (h : cs.take m = d :: e :: ds) :
    ∃ es, cs = d :: e :: es := by
  have hall := List.take_append_drop m cs
  rw [h, List.cons_append, List.cons_append] at hall
  exact ⟨ds ++ cs.drop m, hall.symm⟩

/-- A number is read off every front that holds it. -/
theorem number_take {k : Kind} {n m : Nat} (h : number cs = .ok (k, n)) (hm : n ≤ m) :
    number (cs.take m) = .ok (k, n) := by
  unfold number at h
  split at h
  · have hn := (hexNumber_take (m := n) h (by omega)).1
    obtain ⟨m, rfl⟩ : ∃ l, m = l + 2 := ⟨m - 2, by omega⟩
    exact (hexNumber_take h hm).2
  · have hn := (hexNumber_take (m := n) h (by omega)).1
    obtain ⟨m, rfl⟩ : ∃ l, m = l + 2 := ⟨m - 2, by omega⟩
    exact (hexNumber_take h hm).2
  · rename_i hlower hupper
    rw [← decimalNumber_take h hm, number]
    · intro ds hds
      rcases exists_of_take_eq hds with ⟨es, hes⟩
      exact hlower es hes
    · intro ds hds
      rcases exists_of_take_eq hds with ⟨es, hes⟩
      exact hupper es hes

/-! ## Texts and characters -/

/-- An escaped character is read off every front that holds it. -/
theorem escape_take {e : Char} {n m : Nat} (h : escape cs = some (e, n)) (hm : n ≤ m) :
    0 < n ∧ escape (cs.take m) = some (e, n) := by
  unfold escape at h
  split at h
  · cases h
  · cases h
    obtain ⟨m, rfl⟩ : ∃ l, m = l + 1 := ⟨m - 1, by omega⟩
    exact ⟨Nat.one_pos, rfl⟩
  · cases h
    obtain ⟨m, rfl⟩ : ∃ l, m = l + 1 := ⟨m - 1, by omega⟩
    exact ⟨Nat.one_pos, rfl⟩
  · cases h
    obtain ⟨m, rfl⟩ : ∃ l, m = l + 1 := ⟨m - 1, by omega⟩
    exact ⟨Nat.one_pos, rfl⟩
  · -- behind a `u` the braces and the digits between them are read
    rename_i cs'
    dsimp only at h
    split at h
    · rename_i hclosed
      rcases Option.map_eq_some_iff.mp h with ⟨c, hc, heq⟩
      cases heq
      obtain ⟨m, rfl⟩ : ∃ l, m = l + 2 := ⟨m - 2, by omega⟩
      refine ⟨Nat.succ_pos _, ?_⟩
      simp only [List.take_succ_cons, escape]
      rw [takeWhile_take (by omega), if_pos (by rw [List.length_take]; omega), hc]
      rfl
    · cases h
  · cases h
  · rename_i c cs' hn ht hr hu hu'
    cases h
    obtain ⟨m, rfl⟩ : ∃ l, m = l + 1 := ⟨m - 1, by omega⟩
    refine ⟨Nat.one_pos, ?_⟩
    rw [List.take_succ_cons, escape]
    exacts [hn, ht, hr, fun _ he _ => hu' he, hu']

/-- Two quotes at the front are seen in a text that is cut off, unless it is cut off too early. -/
theorem take_two_take {m : Nat} (hm : 2 ≤ m) : (cs.take m).take 2 = cs.take 2 := by
  rw [List.take_take, Nat.min_eq_left hm]

theorem take_two_of_take {d e : Char} {m : Nat} (h : (cs.take m).take 2 = [d, e]) :
    cs.take 2 = [d, e] := by
  rw [List.take_take] at h
  have hlength := congrArg List.length h
  rw [List.length_take] at hlength
  have hm : min 2 m = 2 := by
    simp only [List.length_cons, List.length_nil] at hlength
    omega
  rwa [hm] at h

/-- At least what is passed over is counted. -/
theorem skip_lt_stringBody {isTriple : Bool} {skip n : Nat} {value : List Char}
    (h : stringBody isTriple skip cs = some (value, n)) : skip < n := by
  induction cs generalizing skip value n with
  | nil => simp [stringBody] at h
  | cons c cs ih =>
    -- characters left to skip are counted before any is read
    cases skip with
    | succ skip =>
      rw [stringBody] at h
      rcases Option.map_eq_some_iff.mp h with ⟨⟨value', k⟩, hk, heq⟩
      cases heq
      exact Nat.succ_lt_succ (ih hk)
    | zero =>
      rw [stringBody] at h
      split at h
      · cases h
      split at h
      · cases h
        cases isTriple <;> simp [quoteCount]
      split at h
      · split at h
        · cases h
        · rcases Option.map_eq_some_iff.mp h with ⟨⟨value', k⟩, -, heq⟩
          cases heq
          exact Nat.succ_pos k
      · rcases Option.map_eq_some_iff.mp h with ⟨⟨value', k⟩, -, heq⟩
        cases heq
        exact Nat.succ_pos k

/-- The body of a text is read off every front that holds it. -/
theorem stringBody_take {isTriple : Bool} {skip n m : Nat} {value : List Char}
    (h : stringBody isTriple skip cs = some (value, n)) (hm : n ≤ m) :
    stringBody isTriple skip (cs.take m) = some (value, n) := by
  induction cs generalizing skip value n m with
  | nil => simp [stringBody] at h
  | cons c cs ih =>
    -- more is counted than passed over, so this character is kept
    have hskip := skip_lt_stringBody h
    obtain ⟨m, rfl⟩ : ∃ l, m = l + 1 := ⟨m - 1, by omega⟩
    rw [List.take_succ_cons]
    cases skip with
    | succ skip =>
      rw [stringBody] at h ⊢
      rcases Option.map_eq_some_iff.mp h with ⟨⟨value', k⟩, hk, heq⟩
      cases heq
      rw [ih hk (by omega)]
      rfl
    | zero =>
      rw [stringBody] at h ⊢
      by_cases hfeed : c = '\n' ∧ !isTriple
      · rw [if_pos hfeed] at h
        cases h
      rw [if_neg hfeed] at h ⊢
      by_cases hclose : c = '"' ∧ (!isTriple ∨ cs.take 2 = ['"', '"'])
      · rw [if_pos hclose] at h
        cases h
        refine if_pos ⟨hclose.1, ?_⟩
        cases isTriple with
        | false => exact .inl rfl
        | true =>
          rw [quoteCount, if_pos rfl] at hm
          rw [take_two_take (by omega)]
          exact hclose.2
      have hopen : ¬(c = '"' ∧ (!isTriple ∨ (cs.take m).take 2 = ['"', '"'])) :=
        fun hquote => hclose ⟨hquote.1, hquote.2.imp_right take_two_of_take⟩
      rw [if_neg hclose] at h
      rw [if_neg hopen]
      by_cases hescape : c = '\\'
      · rw [if_pos hescape] at h ⊢
        split at h
        · cases h
        · rename_i e k hread
          rcases Option.map_eq_some_iff.mp h with ⟨⟨value', l⟩, hl, heq⟩
          cases heq
          have hlt := skip_lt_stringBody hl
          rw [(escape_take hread (by omega)).2]
          dsimp only
          rw [ih hl (by omega)]
          rfl
      · rw [if_neg hescape] at h ⊢
        rcases Option.map_eq_some_iff.mp h with ⟨⟨value', k⟩, hk, heq⟩
        cases heq
        rw [ih hk (by omega)]
        rfl

theorem one_le_quoteCount (isTriple : Bool) : 1 ≤ quoteCount isTriple := by
  cases isTriple <;> simp [quoteCount]

/-- A text in quotes is read off every front that holds it. -/
theorem string_take {k : Kind} {n m : Nat} (h : string cs = .ok (k, n)) (hm : n ≤ m + 1) :
    string (cs.take m) = .ok (k, n) := by
  unfold string at h ⊢
  dsimp only at h ⊢
  split at h
  · rename_i value l hbody
    cases h
    have hpos := skip_lt_stringBody hbody
    -- a third quote at the front is counted, so it is not cut off
    have htriple : decide ((cs.take m).take 2 = ['"', '"']) = decide (cs.take 2 = ['"', '"']) := by
      rw [decide_eq_decide]
      refine ⟨take_two_of_take, fun hquotes => ?_⟩
      rw [hquotes] at hm
      have hthree : quoteCount (decide (['"', '"'] = ['"', '"'])) = 3 := rfl
      rw [take_two_take (by omega), hquotes]
    have hquote := one_le_quoteCount (decide (cs.take 2 = ['"', '"']))
    rw [htriple, List.drop_take, stringBody_take hbody (by omega)]
  · cases h

theorem character_escaped : character ('\\' :: cs) =
    match escape cs with
    | some (e, n) =>
      if (cs.drop n).head? = some '\'' then .ok (.char e, n + 3) else .error .unterminatedLiteral
    | none => .error .unterminatedLiteral := by
  cases hread : escape cs <;> simp [character, hread]

theorem character_cons (hc : c ≠ '\\') : character (c :: cs) =
    if c = '\n' then .error .unterminatedLiteral
    else if cs.head? = some '\'' then .ok (.char c, 3) else .error .unterminatedLiteral := by
  by_cases hfeed : c = '\n'
  · subst hfeed
    simp [character]
  · simp [character, hfeed]

/-- A character in quotes is read off every front that holds it. -/
theorem character_take {k : Kind} {n m : Nat} (h : character cs = .ok (k, n)) (hm : n ≤ m + 1) :
    character (cs.take m) = .ok (k, n) := by
  cases cs with
  | nil => cases h
  | cons c cs =>
    -- an escape is read over several characters, any other character alone
    by_cases hc : c = '\\'
    · subst hc
      rw [character_escaped] at h
      split at h
      · rename_i e l hread
        split at h
        · rename_i hquote
          cases h
          obtain ⟨m, rfl⟩ : ∃ i, m = i + 1 := ⟨m - 1, by omega⟩
          rw [List.take_succ_cons, character_escaped, (escape_take hread (by omega)).2]
          dsimp only
          rw [List.drop_take, head?_take (by omega), if_pos hquote]
        · cases h
      · cases h
    · rw [character_cons hc] at h
      split at h
      · cases h
      · rename_i hfeed
        split at h
        · rename_i hquote
          cases h
          obtain ⟨m, rfl⟩ : ∃ i, m = i + 1 := ⟨m - 1, by omega⟩
          rw [List.take_succ_cons, character_cons hc, if_neg hfeed, head?_take (by omega),
            if_pos hquote]
        · cases h

/-! ## Any lexeme -/

/-- A block comment takes its two marks. -/
theorem two_lt_closeComment {n : Nat} (hc : c = '{') (hcs : cs.head? = some '-')
    (h : closeComment 0 (c :: cs) = some n) : 2 < n := by
  subst hc
  rcases List.head?_eq_some_iff.mp hcs with ⟨cs, rfl⟩
  rw [closeComment] at h
  rcases Option.map_eq_some_iff.mp h with ⟨k, hk, rfl⟩
  have := closeComment_pos hk
  omega

variable {attached : Option Kind} {rest : List Char} {cls : Class} {n m : Nat}

/-- A text that is cut off behind its first lexeme starts with that lexeme. Behind a negation there
has to be something left. -/
theorem next_take (h : next attached c rest = .ok (cls, n)) (hm : n ≤ m)
    (hminus : cls = .token .minus → n < m) : next attached c (rest.take m) = .ok (cls, n) := by
  rw [next_eq_ok_iff] at h ⊢
  cases h with
  | blank hc => exact .blank hc
  | lineComment hc hrest =>
    have htake := takeWhile_take hm
    have hpos : 0 < (rest.takeWhile (· ≠ '\n')).length := by
      rcases List.head?_eq_some_iff.mp hrest with ⟨rest, rfl⟩
      simp
    rw [← htake]
    exact .lineComment hc (by rw [head?_take (hpos.trans_le hm), hrest])
  | @blockComment k hc hrest hclose =>
    have hlarge := two_lt_closeComment hc hrest hclose
    refine .blockComment hc (by rw [head?_take (by omega), hrest]) ?_
    rw [← List.take_succ_cons]
    exact closeComment_take hclose (by omega)
  | mark hc hrest => exact .mark hc fun hbrace => head?_take_ne (hrest hbrace)
  | string hc hread => exact .string hc (string_take hread (by omega))
  | character hc hread => exact .character hc (character_take hread (by omega))
  | point hc hread => exact .point hc (point_take hread (by omega))
  | number hc hread =>
    refine .number hc ?_
    rw [← List.take_succ_cons]
    exact number_take hread (by omega)
  | word hc =>
    have hsame : identifier ((c :: rest).take (m + 1)) = identifier (c :: rest) :=
      identifier_take (by omega)
    rw [← hsame, List.take_succ_cons]
    exact .word hc
  | operator hc hpoint hrest =>
    have htake : (c :: rest).take (m + 1) = c :: rest.take m := rfl
    -- a negation also depends on the character behind it
    have hsame : operator attached (c :: rest.take m) = operator attached (c :: rest) := by
      rw [← htake]
      refine operator_take (by omega) fun hkind => ?_
      have := hminus (by rw [hkind])
      omega
    rw [← hsame]
    exact .operator hc hpoint fun hdash => head?_take_ne (hrest hdash)

/-! ## What stands before a lexeme -/

/-- What starts with a point is the same without anything before it, unless it is a field. -/
theorem point_none {k : Kind} {n : Nat} (h : point attached rest = .ok (k, n))
    (hfield : ∀ f, k ≠ .dotField f) : point none rest = .ok (k, n) := by
  unfold point at h ⊢
  split at h
  · exact h
  · split at h
    · rename_i hlower
      rw [if_pos hlower]
      simp only [Except.ok.injEq, Prod.mk.injEq] at h
      rcases h with ⟨hkind, rfl⟩
      split at hkind
      · exact absurd hkind.symm (hfield _)
      · rw [← hkind]
        rfl
    · cases h
  · cases h

/-- Without a token right before it, every lexeme is read the same but a field and a subtraction. -/
theorem next_none (h : next attached c rest = .ok (cls, n))
    (hfield : ∀ f, cls ≠ .token (.dotField f)) (hminus : cls ≠ .token (.operator "-")) :
    next none c rest = .ok (cls, n) := by
  rw [next_eq_ok_iff] at h ⊢
  cases h with
  | blank hc => exact .blank hc
  | lineComment hc hrest => exact .lineComment hc hrest
  | blockComment hc hrest hclose => exact .blockComment hc hrest hclose
  | mark hc hrest => exact .mark hc hrest
  | string hc hread => exact .string hc hread
  | character hc hread => exact .character hc hread
  | point hc hread => exact .point hc (point_none hread fun f hf => hfield f (by rw [hf]))
  | number hc hread => exact .number hc hread
  | word hc => exact .word hc
  | operator hc hpoint hrest =>
    -- only a minus sign depends on what stands before it, and it is no subtraction
    have hsame : operator none (c :: rest) = operator attached (c :: rest) := by
      by_cases hsingle : (c :: rest).takeWhile isOperatorChar = ['-']
      · rw [operator_minus hsingle] at hminus ⊢
        rw [operator_minus hsingle]
        split at hminus
        · rename_i hnegates
          rw [Bool.and_eq_true] at hnegates
          simp [hnegates]
        · exact absurd rfl hminus
      · exact operator_congr rfl hsingle
    rw [← hsame]
    exact .operator hc hpoint hrest

end Terse.Lexeme
