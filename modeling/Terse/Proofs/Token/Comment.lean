import Terse.Proofs.Token.Reach

/-!
# Comments

A line comment goes on to the end of its row. A block comment may have others inside, each of them
complete: its marks are paired like brackets, and no mark inside belongs to no pair. What is read as
a comment is one.
-/

namespace Terse.Lexeme

open Token (Kind)

variable {attached : Option Kind} {c : Char} {cs rest : List Char} {cls : Class} {n : Nat}

/-- The text is two minus signs with the rest of the row, up to a line feed or the end. -/
def IsLineComment (text behind : List Char) : Prop :=
  ∃ body, text = '-' :: '-' :: body ∧ '\n' ∉ body ∧ ∀ c, behind.head? = some c → c = '\n'

/-- The inside of a block comment, in front of its closing mark: complete comments, and characters
that start no mark. -/
inductive CommentInside : List Char → Prop where
  | nil : CommentInside []
  | plain {c : Char} {cs : List Char} (hopen : c = '{' → (cs ++ ['-', '}']).head? ≠ some '-')
      (hclose : c = '-' → (cs ++ ['-', '}']).head? ≠ some '}') (h : CommentInside cs) :
      CommentInside (c :: cs)
  | comment {inner cs : List Char} (hinner : CommentInside inner) (h : CommentInside cs) :
      CommentInside ('{' :: '-' :: (inner ++ '-' :: '}' :: cs))

/-- The text is an opening mark, an inside and a closing mark. -/
def IsBlockComment (text : List Char) : Prop :=
  ∃ inner, text = '{' :: '-' :: (inner ++ ['-', '}']) ∧ CommentInside inner

/-- The text is a complete comment in front of another one. -/
def IsComment (text behind : List Char) : Prop :=
  IsLineComment text behind ∨ IsBlockComment text

/-- The text closes so many comments that are open before it: for each of them it has what is left
of the inside, and the closing mark. -/
inductive Closes : Nat → List Char → Prop where
  | done : Closes 0 []
  | level {depth : Nat} {inner rest : List Char} (hinner : CommentInside inner)
      (h : Closes depth rest) : Closes (depth + 1) (inner ++ '-' :: '}' :: rest)

theorem closes_zero_iff : Closes 0 cs ↔ cs = [] := by
  constructor
  · intro h
    cases h
    rfl
  · rintro rfl
    exact .done

theorem closes_succ_iff {depth : Nat} :
    Closes (depth + 1) cs ↔
      ∃ inner rest, cs = inner ++ '-' :: '}' :: rest ∧ CommentInside inner ∧ Closes depth rest := by
  constructor
  · intro h
    cases h with
    | level hinner h => exact ⟨_, _, rfl, hinner, h⟩
  · rintro ⟨inner, rest, rfl, hinner, h⟩
    exact .level hinner h

/-- One more mark opens a comment inside the innermost one that is open. -/
theorem Closes.open {depth : Nat} (h : Closes (depth + 2) cs) :
    Closes (depth + 1) ('{' :: '-' :: cs) := by
  obtain ⟨inner, rest, rfl, hinner, h⟩ := closes_succ_iff.mp h
  obtain ⟨outer, rest, rfl, houter, h⟩ := closes_succ_iff.mp h
  have hlevel := Closes.level (.comment hinner houter) h
  simpa using hlevel

/-- One more character stands inside the innermost comment, if it starts no mark there. -/
theorem Closes.plain {depth : Nat} (h : Closes (depth + 1) cs)
    (hopen : c = '{' → cs.head? ≠ some '-') (hclose : c = '-' → cs.head? ≠ some '}') :
    Closes (depth + 1) (c :: cs) := by
  obtain ⟨inner, rest, rfl, hinner, h⟩ := closes_succ_iff.mp h
  -- behind the inside comes the first character of the closing mark
  have hhead : (inner ++ '-' :: '}' :: rest).head? = (inner ++ ['-', '}']).head? := by
    cases inner <;> rfl
  rw [hhead] at hopen hclose
  exact .level (.plain hopen hclose hinner) h

/-- What is counted up to the closing mark of the outermost comment closes all that are open. -/
theorem CommentEnd.closes {depth : Nat} (h : CommentEnd (depth + 1) cs n) :
    Closes (depth + 1) (cs.take n) := by
  generalize hd : depth + 1 = d at h
  induction h generalizing depth with
  | nested _ ih =>
    subst hd
    exact (ih rfl).open
  | last hlast =>
    subst hd
    obtain rfl : depth = 0 := Nat.le_zero.mp (Nat.le_of_succ_le_succ hlast)
    exact .level .nil .done
  | closed hlast _ ih =>
    subst hd
    -- a comment is open around the one that ends here
    obtain ⟨outer, rfl⟩ := Nat.exists_eq_succ_of_ne_zero (n := depth) (by omega)
    exact .level .nil (ih rfl)
  | plain hopen hclose _ ih =>
    subst hd
    exact (ih rfl).plain (fun hc => head?_take_ne (hopen hc)) fun hc => head?_take_ne (hclose hc)

/-- What is skipped as a block comment is one. -/
theorem isBlockComment_of_closeComment (hcs : cs.head? = some '-')
    (h : closeComment 0 ('{' :: cs) = some n) : IsBlockComment (('{' :: cs).take n) := by
  obtain ⟨ds, rfl⟩ := List.head?_eq_some_iff.mp hcs
  cases closeComment_eq_some_iff.mp h with
  | nested hend =>
    obtain ⟨inner, rest, htake, hinner, hrest⟩ := closes_succ_iff.mp hend.closes
    cases closes_zero_iff.mp hrest
    refine ⟨inner, ?_, hinner⟩
    rw [← htake]
    rfl
  | plain hopen => exact absurd rfl (hopen rfl)

/-- What is skipped as a line comment is one. -/
theorem isLineComment_takeWhile (hcs : cs.head? = some '-') :
    IsLineComment ('-' :: cs.takeWhile (· ≠ '\n')) (cs.dropWhile (· ≠ '\n')) := by
  obtain ⟨ds, rfl⟩ := List.head?_eq_some_iff.mp hcs
  refine ⟨ds.takeWhile (· ≠ '\n'), rfl, ?_, ?_⟩
  · intro hmem
    simpa using List.mem_takeWhile_imp hmem
  · intro c hc
    have hdrop : ('-' :: ds).dropWhile (· ≠ '\n') = ds.dropWhile (· ≠ '\n') := rfl
    have hstop := List.head?_dropWhile_not (· ≠ '\n') ds
    rw [hdrop] at hc
    rw [hc] at hstop
    simpa using hstop

/-- A lexeme that is no token is a single space or a complete comment. -/
theorem skipped_of_next (h : next attached c rest = .ok (cls, n)) (hcls : cls.token? = none) :
    (n = 0 ∧ isSpace c) ∨ IsComment (c :: rest.take n) (rest.drop n) := by
  cases front_of_next h with
  | blank hc => exact .inl ⟨rfl, hc⟩
  | lineComment hc hrest =>
    subst hc
    -- a line comment takes the rest of its line, and the line feed stays behind it
    have hsplit := List.takeWhile_append_dropWhile (p := (· ≠ '\n')) (l := rest)
    have htake : rest.take (rest.takeWhile (· ≠ '\n')).length = rest.takeWhile (· ≠ '\n') :=
      (List.prefix_iff_eq_take.mp (List.takeWhile_prefix _)).symm
    have hdrop : rest.drop (rest.takeWhile (· ≠ '\n')).length = rest.dropWhile (· ≠ '\n') := by
      conv_lhs => arg 2; rw [← hsplit]
      exact List.drop_left
    rw [htake, hdrop]
    exact .inr (.inl (isLineComment_takeWhile hrest))
  | blockComment hc hrest hclose =>
    subst hc
    rename_i m
    have hblock := isBlockComment_of_closeComment hrest hclose
    obtain ⟨l, rfl⟩ := Nat.exists_eq_succ_of_ne_zero (closeComment_pos hclose).ne'
    exact .inr (.inr hblock)
  | mark | string | character | point | number | word | operator => cases hcls

end Terse.Lexeme
