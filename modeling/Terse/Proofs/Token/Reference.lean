import Terse.Proofs.Token.Excerpt
import Terse.Proofs.Tree.Node

/-!
# References are single tokens

A reference that is written with a path is scanned as one token when its name starts with a letter
that is capital or small. Other letters start a name only where no path stands before it.
-/

namespace Terse

open Token (Kind)

theorem IsCapital.exists_cons {s : String} (h : IsCapital s) :
    ∃ c cs, s.toList = c :: cs ∧ Letter.isUppercase c := by
  rcases List.exists_cons_of_ne_nil h.1.1 with ⟨c, cs, hcs⟩
  exact ⟨c, cs, hcs, by simpa [QualifiedName.isConstructor, QualifiedName.bare, hcs] using h.2⟩

/-- The name starts with a capital or a small letter. -/
def startsWithCase (name : String) : Bool :=
  name.toList.head?.any fun c => Letter.isUppercase c || Letter.isLowercase c

namespace Lexeme

variable {s x : String} {ss : List String} {w rest : List Char}

/-! ## Segments -/

/-- The segments behind the first one, each with a point before it. -/
def pointed (ss : List String) : List Char := ss.flatMap ('.' :: ·.toList)

theorem toList_dotted (s : String) (ss : List String) :
    (dotted (s :: ss)).toList = s.toList ++ pointed ss := by
  rw [dotted, String.toList_intercalate]
  induction ss generalizing s with
  | nil => simp [pointed]
  | cons t ss ih =>
    rw [List.map_cons, List.map_cons, List.intercalate_cons_cons, ← List.map_cons, ih]
    simp [pointed]

/-- A qualified name is its first segment and the others with a point before each. -/
theorem toList_reference (s x : String) (ss : List String) :
    (dotted (s :: ss) ++ "." ++ x).toList = s.toList ++ (pointed ss ++ '.' :: x.toList) := by
  simp [toList_dotted]

/-- A text that no word continues into. -/
def EndsWord (cs : List Char) : Prop := ∀ c, cs.head? = some c → Letter.isWordChar c = false

theorem endsWord_nil : EndsWord [] := by simp [EndsWord]

theorem endsWord_point (cs : List Char) : EndsWord ('.' :: cs) := by
  rintro _ ⟨⟩
  decide +kernel

theorem endsWord_pointed (h : EndsWord rest) : EndsWord (pointed ss ++ rest) := by
  cases ss with
  | nil => exact h
  | cons s ss => exact endsWord_point _

/-- A word ends where no further character of words follows. -/
theorem word_append (hw : ∀ c ∈ w, Letter.isWordChar c) (hrest : EndsWord rest) :
    word (w ++ rest) = w := by
  rw [word, List.takeWhile_append_of_pos hw]
  cases rest with
  | nil => simp
  | cons c rest => rw [List.takeWhile_cons_of_neg (by simp [hrest c rfl]), List.append_nil]

theorem laterSegments_skip : laterSegments w.length (w ++ rest) =
    ((laterSegments 0 rest).1, (laterSegments 0 rest).2.1,
      (laterSegments 0 rest).2.2 + w.length) := by
  induction w with
  | nil => rfl
  | cons c w ih =>
    rw [List.length_cons, List.cons_append, laterSegments, ih]
    rfl

/-- A segment with a capital letter is read, and then those behind it. -/
theorem laterSegments_capital (hs : IsCapital s) (hrest : EndsWord rest) :
    laterSegments 0 ('.' :: (s.toList ++ rest)) =
      (s :: (laterSegments 0 rest).1, (laterSegments 0 rest).2.1,
        (laterSegments 0 rest).2.2 + s.toList.length + 1) := by
  rcases hs.exists_cons with ⟨c, cs, hcs, hupper⟩
  have hhead' : (s.toList ++ rest).head? = some c := by rw [hcs]; rfl
  rw [laterSegments, hhead', word_append hs.1.2 hrest, laterSegments_skip, String.ofList_toList]
  exact if_pos hupper

/-- A segment with a small letter is the last one that is read. -/
theorem laterSegments_small (hs : IsWord s) {c : Char} (hhead : s.toList.head? = some c)
    (hlower : Letter.isLowercase c) (hrest : EndsWord rest) :
    laterSegments 0 ('.' :: (s.toList ++ rest)) = ([], some s, s.toList.length + 1) := by
  have hhead' : (s.toList ++ rest).head? = some c := by rw [List.head?_append, hhead]; rfl
  rw [laterSegments, hhead', word_append hs.2 hrest, String.ofList_toList]
  exact (if_neg (Letter.not_isUppercase_of_isLowercase hlower)).trans (if_pos hlower)

/-- A point before anything but a letter with a case ends the name. -/
theorem laterSegments_other {c : Char} (hhead : rest.head? = some c)
    (hupper : Letter.isUppercase c = false) (hlower : Letter.isLowercase c = false) :
    laterSegments 0 ('.' :: rest) = ([], none, 0) := by
  simp [laterSegments, hhead, hupper, hlower]

/-- Capital segments are all read, up to what follows them. -/
theorem laterSegments_pointed (hss : ∀ s ∈ ss, IsCapital s) (hrest : EndsWord rest) :
    laterSegments 0 (pointed ss ++ rest) =
      (ss ++ (laterSegments 0 rest).1, (laterSegments 0 rest).2.1,
        (laterSegments 0 rest).2.2 + (pointed ss).length) := by
  induction ss with
  | nil => rfl
  | cons s ss ih =>
    rw [List.forall_mem_cons] at hss
    have hall : pointed (s :: ss) ++ rest = '.' :: (s.toList ++ (pointed ss ++ rest)) := by
      simp [pointed]
    rw [hall, laterSegments_capital hss.1 (endsWord_pointed hrest), ih hss.2]
    simp [pointed]
    omega

/-- A name with a path is read up to what does not continue it. -/
theorem identifier_pointed (hs : IsCapital s) (hss : ∀ t ∈ ss, IsCapital t)
    (hrest : EndsWord rest) : identifier (s.toList ++ (pointed ss ++ rest)) =
      (capitalized s (ss ++ (laterSegments 0 rest).1) (laterSegments 0 rest).2.1,
        s.toList.length + ((laterSegments 0 rest).2.2 + (pointed ss).length)) := by
  rcases hs.exists_cons with ⟨c, cs, hcs, hupper⟩
  have hhead : s.toList.head? = some c := by rw [hcs]; rfl
  have hplain : (s == "_") = false := by
    rw [beq_eq_false_iff_ne]
    rintro rfl
    obtain rfl : '_' = c := by simpa using hhead
    exact absurd hupper (by decide)
  rw [identifier, word_append hs.1.2 (endsWord_pointed hrest), String.ofList_toList, hplain, hhead,
    List.drop_left, laterSegments_pointed hss hrest]
  exact (if_neg Bool.false_ne_true).trans (if_pos hupper)

theorem capitalized_append : capitalized s (ss ++ [x]) none = .upper (s :: ss) x := by
  rw [capitalized, ← List.cons_append, List.dropLast_concat, List.getLastD_concat]

/-- A name that starts with a capital or a small letter is read together with its path. -/
theorem identifier_reference (hs : IsCapital s) (hss : ∀ t ∈ ss, IsCapital t) (hx : IsWord x)
    (hcase : startsWithCase x) : identifier (s.toList ++ (pointed ss ++ '.' :: x.toList)) =
      (QualifiedName.kind ⟨⟨s :: ss⟩, x⟩,
        (s.toList ++ (pointed ss ++ '.' :: x.toList)).length) := by
  rcases List.exists_cons_of_ne_nil hx.1 with ⟨c, cs, hcs⟩
  have hlater : laterSegments 0 ('.' :: x.toList) =
      if QualifiedName.isConstructor ⟨⟨s :: ss⟩, x⟩ then ([x], none, x.toList.length + 1)
      else ([], some x, x.toList.length + 1) := by
    split
    · rename_i hupper
      simpa [laterSegments] using laterSegments_capital ⟨hx, hupper⟩ endsWord_nil
    · rename_i hupper
      have hlower : Letter.isLowercase c := by
        simp_all [startsWithCase, QualifiedName.isConstructor]
      simpa using laterSegments_small hx (by rw [hcs]; rfl) hlower endsWord_nil
  rw [identifier_pointed hs hss (endsWord_point _), hlater, QualifiedName.kind]
  split
  · rw [capitalized_append]
    simp
    omega
  · simp [capitalized]
    omega

/-- A point makes no token before anything but a point or a small letter. -/
theorem point_ne_ok {attached : Option Kind} {c : Char} {k : Kind} {n : Nat} (hpoint : c ≠ '.')
    (hlower : Letter.isLowercase c = false) : point attached (c :: rest) ≠ .ok (k, n) := by
  unfold point
  split
  · simp_all
  · rename_i hcs
    cases hcs
    simp [hlower]
  · simp

/-- What a text that is cut to its end starts with. -/
theorem exists_next {attached : Option Kind} {c : Char} {cs : List Char} {ps : List Piece}
    (h : cutFrom 0 attached (c :: cs) = (ps, none)) :
    ∃ cls n ps', next attached c cs = .ok (cls, n) ∧
      cutFrom 0 cls.token? (cs.drop n) = (ps', none) := by
  cases ps with
  | nil => cases cutFrom_nil_iff.mp h
  | cons p ps =>
    rcases cutFrom_cons_iff.mp h with ⟨_, _, n, hcs, hnext, -, hcut⟩
    cases hcs
    exact ⟨_, n, ps, hnext, hcut⟩

end Lexeme

/-! ## References as tokens -/

namespace Token

variable {c : Char} {cs rest : List Char} {k : Kind} {s x : String} {ss : List String}

/-- A word that takes up a text is its only token. -/
theorem scan_word (hc : Letter.isAlphabetic c || c == '_')
    (h : Lexeme.identifier (c :: cs) = (k, cs.length + 1)) :
    ∃ t, scan (c :: cs) = .ok [t] ∧ t.kind = k := by
  have hnext : Lexeme.next none c cs = .ok (.token k, cs.length) := by
    rw [Lexeme.next_of_front (.word hc), h]
    rfl
  have hcut : Lexeme.cut (c :: cs) = ([⟨.token k, c :: cs⟩], none) :=
    Lexeme.cutFrom_cons_iff.mpr ⟨c, cs, cs.length, rfl, hnext, by rw [List.take_length],
      Lexeme.cutFrom_nil_iff.mpr List.drop_length⟩
  rw [scan, hcut]
  exact ⟨_, rfl, rfl⟩

/-- A text is not scanned if its first word is followed by a point that starts no token. -/
theorem scan_ne_ok (hc : Letter.isAlphabetic c || c == '_')
    (hdrop : cs.drop ((Lexeme.identifier (c :: cs)).2 - 1) = '.' :: rest)
    (hpoint : ∀ attached k n, Lexeme.point attached rest ≠ .ok (k, n)) (ts : List Token) :
    scan (c :: cs) ≠ .ok ts := by
  intro hscan
  rcases exists_of_scan hscan with ⟨pieces, hcut, -⟩
  rcases Lexeme.exists_next hcut with ⟨cls, n, ps, hnext, hcut⟩
  rw [Lexeme.next_of_front (.word hc)] at hnext
  cases hnext
  rw [hdrop] at hcut
  rcases Lexeme.exists_next hcut with ⟨cls, n, ps, hnext, -⟩
  rw [Lexeme.next_point] at hnext
  rcases Lexeme.read_ok hnext with ⟨k, m, hok, -⟩
  exact hpoint _ k m hok

/-- A reference with a path is a single token if its name starts with a capital or small letter. -/
theorem scan_reference (hs : ∀ t ∈ s :: ss, IsCapital t) (hx : IsWord x)
    (hcase : startsWithCase x) :
    ∃ t, scan (dotted (s :: ss) ++ "." ++ x).toList = .ok [t] ∧
      t.kind = QualifiedName.kind ⟨⟨s :: ss⟩, x⟩ := by
  rcases List.forall_mem_cons.mp hs with ⟨hfirst, hss⟩
  rcases hfirst.exists_cons with ⟨c, w, hw, hupper⟩
  have hident := Lexeme.identifier_reference hfirst hss hx hcase
  rw [Lexeme.toList_reference]
  rw [hw, List.cons_append] at hident ⊢
  exact scan_word (by simp [Letter.isAlphabetic_of_isUppercase hupper]) hident

/-- Behind a path no other letter can start a name. -/
theorem scan_reference_ne_ok (hs : ∀ t ∈ s :: ss, IsCapital t) (hx : IsWord x)
    (hcase : startsWithCase x = false) (ts : List Token) :
    scan (dotted (s :: ss) ++ "." ++ x).toList ≠ .ok ts := by
  rcases List.forall_mem_cons.mp hs with ⟨hfirst, hss⟩
  rcases hfirst.exists_cons with ⟨c, w, hw, hupper⟩
  rcases List.exists_cons_of_ne_nil hx.1 with ⟨d, ds, hds⟩
  have hd : Letter.isUppercase d = false ∧ Letter.isLowercase d = false := by
    simpa [startsWithCase, hds] using hcase
  have hident := Lexeme.identifier_pointed hfirst hss (Lexeme.endsWord_point x.toList)
  rw [Lexeme.laterSegments_other (by rw [hds]; rfl) hd.1 hd.2] at hident
  rw [Lexeme.toList_reference]
  rw [hw, List.cons_append] at hident ⊢
  rw [hds] at hident ⊢
  have hpoint : d ≠ '.' := by
    rintro rfl
    exact absurd (hx.2 '.' (by simp [hds])) (by decide +kernel)
  have hdrop : (w ++ (Lexeme.pointed ss ++ '.' :: d :: ds)).drop
      ((Lexeme.identifier (c :: (w ++ (Lexeme.pointed ss ++ '.' :: d :: ds)))).2 - 1) =
        '.' :: d :: ds := by
    rw [hident]
    simp
  exact scan_ne_ok (by simp [Letter.isAlphabetic_of_isUppercase hupper]) hdrop
    (fun attached k n => Lexeme.point_ne_ok hpoint hd.2) ts

end Token

end Terse
